import FalconLink.Model.Http.Handler

/-! # Responses -/

namespace FalconLink.Http

structure Response where
  statusLine : Bytes
  shouldClose : Bool
  headers : List Header
  resourceUrl : Option Bytes
  deriving DecidableEq, Repr

namespace Response

/-- The text after the last dot, when there is a dot. -/
def afterLastDot (url : Bytes) : Option Bytes :=
  if dot ∈ url then some (url.reverse.takeWhile (· ≠ dot)).reverse else none

/-- The constructor. -/
def make (statusCode : Bytes) (shouldClose : Bool) (resourceUrl : Option Bytes) :
    Code Response := do
  let statusLine := httpVersion ++ space ++ statusCode
  let headers := [Header.make headerServer serverFalconlink,
    Header.make headerConnection (if shouldClose then connectionClose else connectionKeepAlive)]
  match resourceUrl with
  | some url =>
      if ← access (.isFileExists url) then
        let contentLength ← access (.getFileSize url)
        let headers := headers ++ [Header.make headerContentLength (toDecimal contentLength)]
        match afterLastDot url with
        | some extension =>
            return ⟨statusLine, shouldClose, headers ++ [Header.make headerContentType
              (extensionToMime (toExtension extension))], resourceUrl⟩
        | none => return ⟨statusLine, shouldClose, headers, resourceUrl⟩
      else
        return ⟨statusLine, shouldClose,
          headers ++ [Header.make headerContentLength contentLengthZero], none⟩
  | none =>
      return ⟨statusLine, shouldClose,
        headers ++ [Header.make headerContentLength contentLengthZero], none⟩

def make200Response (shouldClose : Bool) (resourceUrl : Option Bytes) : Code Response :=
  make responseOk shouldClose resourceUrl

def make400Response : Code Response :=
  make responseBadRequest true none

def make404Response : Code Response :=
  make responseNotFound true none

/-- Everything before the body. -/
def serialize (response : Response) (buffer : Bytes) : Bytes :=
  buffer ++ (response.statusLine ++ crlf ++ response.headers.flatMap Header.serialize ++ crlf)

/-- Change the value of the first header with the key. -/
def changeHeader (response : Response) (key newValue : Bytes) : Response :=
  { response with headers := go response.headers }
where
  go : List Header → List Header
    | [] => []
    | header :: headers =>
        if header.key = key then header.setValue newValue :: headers else header :: go headers

end Response

end FalconLink.Http
