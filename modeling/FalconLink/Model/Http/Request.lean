import FalconLink.Model.Http.Utils

/-! # Headers and requests -/

namespace FalconLink.Http

structure Header where
  key : Bytes
  value : Bytes
  valid : Bool
  deriving DecidableEq, Repr

namespace Header

/-- The constructor from a key and a value. -/
def make (key value : Bytes) : Header :=
  ⟨key, value, true⟩

/-- The constructor from a line. The value can contain the separator again. -/
def parse (line : Bytes) : Header :=
  match split line colon with
  | key :: value :: tokens =>
      if tokens.isEmpty then make key value else make key (join (value :: tokens) colon)
  | _ => ⟨[], [], false⟩

def setValue (header : Header) (newValue : Bytes) : Header :=
  { header with value := newValue }

def serialize (header : Header) : Bytes :=
  header.key ++ colon ++ header.value ++ crlf

end Header

/-- The members of a request, with their initial values. `method` and `version` have none in
the source; they are not read from a request that is not valid. -/
structure Request where
  method : Method := .unsupported
  version : Version := .unsupported
  resourceUrl : Bytes := []
  headers : List Header := []
  shouldClose : Bool := true
  isValid : Bool := false
  invalidReason : Bytes := []
  deriving DecidableEq, Repr

namespace Request

def parseRequestLine (request : Request) (requestLine : Bytes) : Bool × Request :=
  match split requestLine space with
  | [methodStr, url, versionStr] =>
      let method := toMethod methodStr
      let request := { request with method }
      if method = .unsupported then
        (false, { request with invalidReason := ascii "Unsupported method: " ++ methodStr })
      else
        let version := toVersion versionStr
        let request := { request with version }
        if version = .unsupported then
          (false, { request with invalidReason := ascii "Unsupported version: " ++ versionStr })
        else
          (true, { request with
            resourceUrl :=
              if url.isEmpty || url.getLast? = some 47 then url ++ defaultRoute else url })
  | _ =>
      (false, { request with
        invalidReason := ascii "Invalid first request headline: " ++ requestLine })

/-- Only `Connection: Keep-Alive` keeps the connection open. -/
def scanHeader (request : Request) (header : Header) : Request :=
  if format header.key = format headerConnection then
    if format header.value = format connectionKeepAlive then
      { request with shouldClose := false }
    else request
  else request

/-- The loop over the header lines. -/
def parseHeaders (request : Request) : List Bytes → Request
  | [] => { request with isValid := true }
  | line :: lines =>
      let header := Header.parse line
      if header.valid then
        let request := request.scanHeader header
        parseHeaders { request with headers := request.headers ++ [header] } lines
      else { request with invalidReason := ascii "Fail to parse header line: " ++ line }

/-- The constructor from the bytes of a request. The end of a request is split to an empty
last token. -/
def parse (requestStr : Bytes) : Request :=
  let lines := split requestStr crlf
  if lines.length < 2 || lines.getLast? ≠ some [] then
    { invalidReason := ascii "Request format is wrong." }
  else if lines.getLast? ≠ some [] then
    { invalidReason := ascii "Ending of the request is not \\r\\n\\r\\n" }
  else
    match lines.dropLast with
    | [] => {}
    | line :: lines =>
        match parseRequestLine {} line with
        | (true, request) => request.parseHeaders lines
        | (false, request) => request

/-- The decoded url. -/
def getResourceUrl (request : Request) : Bytes :=
  urlDecode request.resourceUrl

end Request

end FalconLink.Http
