import FalconLink.Model.Connection
import FalconLink.Model.Http.Response

/-! # The request handler of the server -/

namespace FalconLink.Http

/-- The response to a request with the body that follows it, and whether the connection is
closed after it. -/
structure Reply where
  response : Response
  body : Bytes
  noMoreParse : Bool
  deriving DecidableEq, Repr

/-- The bytes of `response_buf`. -/
def Reply.bytes (reply : Reply) : Bytes :=
  reply.response.serialize [] ++ reply.body

/-- What is answered to one frame of the read buffer: the body of the loop of
`processHttpRequest` up to the sending. -/
def respond (httpResourceDir : Bytes) (requestOp : Bytes) : Code Reply := do
  let request := Request.parse requestOp
  if !request.isValid then
    return ⟨← Response.make400Response, [], true⟩
  else
    let resourceFullPath := httpResourceDir ++ request.getResourceUrl
    if isCgiRequest resourceFullPath then
      let cgier := Cgier.parseCgier resourceFullPath
      if !cgier.valid then
        return ⟨← Response.make400Response, [], true⟩
      else if !(← access (.isFileExists cgier.cgiProgramPath)) then
        return ⟨← Response.make404Response, [], true⟩
      else
        let cgiResult ← access (.run cgier.cgiProgramPath cgier.cgiArguments)
        let response ← Response.make200Response request.shouldClose none
        let response := response.changeHeader headerContentLength (toDecimal cgiResult.length)
        return ⟨response, cgiResult, request.shouldClose⟩
    else if !(← access (.isFileExists resourceFullPath)) then
      return ⟨← Response.make404Response, [], true⟩
    else
      let response ← Response.make200Response request.shouldClose (some resourceFullPath)
      if request.method = .get then
        let (resourceCached, cacheBuf) ← access (.cache (.tryLoad resourceFullPath []))
        if resourceCached then
          return ⟨response, cacheBuf, request.shouldClose⟩
        else
          let cacheBuf ← access (.loadFile resourceFullPath cacheBuf)
          let _ ← access (.cache (.tryInsert resourceFullPath cacheBuf))
          return ⟨response, cacheBuf, request.shouldClose⟩
      else
        return ⟨response, [], request.shouldClose⟩

/-! ## A connection over time -/

/-- How a connection stands. -/
inductive Status where
  | kept
  /-- Deleted by `deleteConnection`. -/
  | deleted
  /-- A call of `recv` or `send` has not returned. It never does when a `::send` has raised
  `SIGPIPE`, which ends the process. -/
  | blocked
  /-- `processHttpRequest` does not return: an exception has left it, or a run is endless. -/
  | faulted (fault : Fault)
  deriving DecidableEq, Repr

/-- A response as it was written to the write buffer, and what the kernel accepted of it. -/
structure Delivery where
  response : Bytes
  accepted : Bytes
  deriving DecidableEq, Repr

/-- A connection together with the cache, the results that `::send` will still give, the
deliveries so far, and its status. -/
structure Session where
  conn : Connection
  cache : Cache
  sends : List SendResult
  deliveries : List Delivery
  status : Status

namespace Session

/-- A new connection. -/
def start (cache : Cache) (sends : List SendResult) : Session :=
  ⟨.empty, cache, sends, [], .kept⟩

/-- `WriteToWriteBuffer` and `send`, and `deleteConnection` when nothing more is parsed. -/
def deliver (s : Session) (reply : Reply) : Session :=
  let sent := (s.conn.writeToWriteBuffer reply.bytes).send s.sends
  { s with
    conn := sent.conn
    sends := sent.results
    deliveries := s.deliveries ++ [⟨reply.bytes, sent.accepted⟩]
    status := if !sent.returned then .blocked else if reply.noMoreParse then .deleted else .kept }

/-- The body of the loop of `processHttpRequest`, for one frame. -/
def serveFrame (env : Env) (s : Session) (requestOp : Bytes) : Session :=
  match (respond env.httpResourceDir requestOp).run (exec env) s.cache with
  | .ok (reply, cache) => { s with cache }.deliver reply
  | .error fault => { s with status := .faulted fault }

/-- The loop of `processHttpRequest`, for at most `rounds` rounds. -/
def serveLoop (env : Env) : ℕ → Session → Session
  | 0, s => s
  | rounds + 1, s =>
      match s.conn.findAndPopTill crlfcrlf with
      | none => s
      | some (requestOp, conn) =>
          let s := serveFrame env { s with conn } requestOp
          if s.status = .kept then serveLoop env rounds s else s

/-- One call of `processHttpRequest`. Each round of its loop takes bytes out of the read buffer,
so that their number is enough rounds. -/
def processHttpRequest (env : Env) (s : Session) (results : List RecvResult) : Session :=
  match s.conn.recv 0 results with
  | none => { s with status := .blocked }
  | some received =>
      let s := { s with conn := received.conn }
      if received.exit then { s with status := .deleted }
      else serveLoop env s.conn.readBuf.length s

/-- The calls of `processHttpRequest` for one connection, each with the results that `::recv`
gives it. Nothing is delivered to a connection that is not kept. -/
def processAll (env : Env) : Session → List (List RecvResult) → Session
  | s, [] => s
  | s, results :: batches =>
      if s.status = .kept then processAll env (s.processHttpRequest env results) batches else s

end Session

end FalconLink.Http
