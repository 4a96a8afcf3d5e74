import FalconLink.Model.Http.HttpServer

/-! # What the handler answers -/

namespace FalconLink.Http

/-! ## The request behind a frame -/

/-- What a frame asks for. -/
inductive Target where
  | malformed
  | dynamic (cgiProgramPath : Bytes) (cgiArguments : List Bytes) (shouldClose : Bool)
  | static (path : Bytes) (method : Method) (shouldClose : Bool)
  deriving DecidableEq, Repr

def target (httpResourceDir requestOp : Bytes) : Target :=
  let request := Request.parse requestOp
  let path := httpResourceDir ++ request.getResourceUrl
  if !request.isValid then .malformed
  else if isCgiRequest path then
    .dynamic (Cgier.parseCgier path).cgiProgramPath (Cgier.parseCgier path).cgiArguments
      request.shouldClose
  else .static path request.method request.shouldClose

section

variable {httpResourceDir requestOp : Bytes}

theorem target_of_cgi (hvalid : (Request.parse requestOp).isValid = true)
    (hcgi : isCgiRequest (httpResourceDir ++ (Request.parse requestOp).getResourceUrl) = true) :
    target httpResourceDir requestOp =
      .dynamic
        (Cgier.parseCgier (httpResourceDir ++ (Request.parse requestOp).getResourceUrl)).cgiProgramPath
        (Cgier.parseCgier (httpResourceDir ++ (Request.parse requestOp).getResourceUrl)).cgiArguments
        (Request.parse requestOp).shouldClose := by
  simp [target, hvalid, hcgi]

theorem target_of_static (hvalid : (Request.parse requestOp).isValid = true)
    (hcgi : isCgiRequest (httpResourceDir ++ (Request.parse requestOp).getResourceUrl) = false) :
    target httpResourceDir requestOp =
      .static (httpResourceDir ++ (Request.parse requestOp).getResourceUrl)
        (Request.parse requestOp).method (Request.parse requestOp).shouldClose := by
  simp [target, hvalid, hcgi]

end

theorem parseCgier_valid {url : Bytes} (h : isCgiRequest url = true) :
    (Cgier.parseCgier url).valid = true := by
  have hne : url.isEmpty = false := by
    cases url with
    | nil => exact absurd h (by decide)
    | cons b url => rfl
  simp only [Cgier.parseCgier, hne, h, Bool.not_true, Bool.or_self, Bool.false_eq_true, if_false]
  split <;> rfl

/-! ## Responses without a file and with one -/

/-- A response that declares no content. -/
def Response.plain (statusCode : Bytes) (shouldClose : Bool) : Response :=
  ⟨httpVersion ++ space ++ statusCode, shouldClose,
    [Header.make headerServer serverFalconlink,
      Header.make headerConnection (if shouldClose then connectionClose else connectionKeepAlive),
      Header.make headerContentLength contentLengthZero], none⟩

/-- The response that announces a file of the given size. -/
def Response.ofFile (url : Bytes) (shouldClose : Bool) (size : ℕ) : Response :=
  ⟨httpVersion ++ space ++ responseOk, shouldClose,
    [Header.make headerServer serverFalconlink,
      Header.make headerConnection (if shouldClose then connectionClose else connectionKeepAlive),
      Header.make headerContentLength (toDecimal size)] ++
    ((afterLastDot url).map fun extension => Header.make headerContentType
      (extensionToMime (toExtension extension))).toList, some url⟩

/-- The response that announces the output of a CGI program. -/
def Response.ofOutput (shouldClose : Bool) (output : Bytes) : Response :=
  (Response.plain responseOk shouldClose).changeHeader headerContentLength
    (toDecimal output.length)

theorem Response.make_some (url : Bytes) (shouldClose : Bool) :
    Response.make200Response shouldClose (some url) =
      .call (.isFileExists url) fun there =>
        if there then .call (.getFileSize url) fun size => .ret (Response.ofFile url shouldClose size)
        else .ret (Response.plain responseOk shouldClose) := by
  simp only [make200Response, make, access, Prog.op_bind]
  congr 1
  funext there
  cases there with
  | false => rfl
  | true =>
      simp only [if_true]
      congr 1
      funext size
      rw [Response.ofFile]
      cases afterLastDot url <;> rfl

/-! ## The handler by target -/

/-- The lookup of a file in the cache, and its loading on a miss. -/
def fetch (path : Bytes) : Code Bytes :=
  .call (.cache (.tryLoad path [])) fun answer =>
    if answer.1 then .ret answer.2
    else .call (.loadFile path answer.2) fun cacheBuf =>
      .call (.cache (.tryInsert path cacheBuf)) fun _ => .ret cacheBuf

/-- `respond` for a target. -/
def answer : Target → Code Reply
  | .malformed => .ret ⟨Response.plain responseBadRequest true, [], true⟩
  | .dynamic program arguments shouldClose =>
      .call (.isFileExists program) fun there =>
        if there then .call (.run program arguments) fun output =>
          .ret ⟨Response.ofOutput shouldClose output, output, shouldClose⟩
        else .ret ⟨Response.plain responseNotFound true, [], true⟩
  | .static path method shouldClose =>
      .call (.isFileExists path) fun there =>
        if there then
          Response.make200Response shouldClose (some path) >>= fun response =>
            if method = .get then fetch path >>= fun body => .ret ⟨response, body, shouldClose⟩
            else .ret ⟨response, [], shouldClose⟩
        else .ret ⟨Response.plain responseNotFound true, [], true⟩

theorem respond_eq (httpResourceDir requestOp : Bytes) :
    respond httpResourceDir requestOp = answer (target httpResourceDir requestOp) := by
  simp only [respond, target]
  generalize Request.parse requestOp = request
  generalize httpResourceDir ++ request.getResourceUrl = path
  cases request.isValid with
  | false => rfl
  | true =>
      simp only [Bool.not_true, Bool.false_eq_true, if_false]
      cases hcgi : isCgiRequest path with
      | true =>
          simp only [if_true, parseCgier_valid hcgi, Bool.not_true, Bool.false_eq_true, if_false,
            answer]
          apply Prog.call_congr
          intro there
          cases there <;> rfl
      | false =>
          simp only [Bool.false_eq_true, if_false, answer]
          apply Prog.call_congr
          intro there
          cases there with
          | false => rfl
          | true =>
              refine Prog.bind_congr (p := Response.make200Response request.shouldClose (some path))
                fun response => ?_
              by_cases hget : request.method = .get
              · simp only [hget, if_true]
                apply Prog.call_congr
                intro loaded
                cases loaded with
                | mk cached cacheBuf => cases cached <;> rfl
              · simp only [hget, if_false]
                rfl

/-! ## A server without a cache -/

/-- The cache that never holds anything. -/
def noCache : Prog.Exec Cache.Call Cache.Call.Result Fault Unit
  | .tryLoad _ destination, s => .ok ((false, destination), s)
  | .tryInsert _ _, s => .ok (false, s)

/-- What the handler answers when there is no cache and every file is loaded. -/
def uncached (env : Env) (requestOp : Bytes) : Except Fault Reply :=
  ((respond env.httpResourceDir requestOp).run (execWith env noCache) ()).map Prod.fst

/-- The outcome for a target, from the file system alone. -/
def outcome (env : Env) : Target → Except Fault Reply
  | .malformed => .ok ⟨Response.plain responseBadRequest true, [], true⟩
  | .dynamic program arguments shouldClose =>
      match env.fs program with
      | .absent => .ok ⟨Response.plain responseNotFound true, [], true⟩
      | .statError => .error .filesystemError
      | _ => (env.run program arguments).map fun output =>
          ⟨Response.ofOutput shouldClose output, output, shouldClose⟩
  | .static path method shouldClose =>
      match env.fs path with
      | .absent => .ok ⟨Response.plain responseNotFound true, [], true⟩
      | .regular contents => .ok ⟨Response.ofFile path shouldClose contents.length,
          if method = .get then contents else [], shouldClose⟩
      | _ => .error .filesystemError

theorem loadFile_regular {fs : FileSystem} {path contents : Bytes} (h : fs path = .regular contents)
    (buffer : Bytes) : loadFile fs path buffer = .ok (buffer ++ contents) := by
  simp [loadFile, getFileSize, isFileExists, fileSize, h, bind, Except.bind]

theorem getFileSize_regular {fs : FileSystem} {path contents : Bytes}
    (h : fs path = .regular contents) : getFileSize fs path = .ok contents.length := by
  simp [getFileSize, isFileExists, fileSize, h, bind, Except.bind]

theorem getFileSize_directory {fs : FileSystem} {path : Bytes} (h : fs path = .directory) :
    getFileSize fs path = .error .filesystemError := by
  simp [getFileSize, isFileExists, fileSize, h, bind, Except.bind]

theorem uncached_eq (env : Env) (requestOp : Bytes) :
    uncached env requestOp = outcome env (target env.httpResourceDir requestOp) := by
  rw [uncached, respond_eq]
  cases target env.httpResourceDir requestOp with
  | malformed => rfl
  | dynamic program arguments shouldClose =>
      cases hfs : env.fs program <;> cases hrun : env.run program arguments <;>
        simp [answer, outcome, Prog.run, execWith, isFileExists, hfs, hrun, Except.map]
  | static path method shouldClose =>
      cases hfs : env.fs path with
      | regular contents =>
          by_cases hget : method = .get <;>
            simp [answer, outcome, Prog.run, execWith, isFileExists, hfs, Except.map,
              Response.make_some, getFileSize_regular hfs, loadFile_regular hfs, hget, fetch, noCache]
      | directory =>
          simp [answer, outcome, Prog.run, execWith, isFileExists, hfs, Except.map,
            Response.make_some, getFileSize_directory hfs]
      | absent => simp [answer, outcome, Prog.run, execWith, isFileExists, hfs, Except.map]
      | statError => simp [answer, outcome, Prog.run, execWith, isFileExists, hfs, Except.map]

end FalconLink.Http
