import FalconLink.Model.Http.Request

/-! # The vector accesses of the parsers

The constructors of `Header` and `Request` once more, with every access to a vector
checked: `none` stands for an index out of range, or for the end of an empty vector.
-/

namespace FalconLink.Http

/-- `tokens.erase(tokens.begin())`. -/
def eraseFront {α : Type*} : List α → Option (List α)
  | [] => none
  | _ :: tokens => some tokens

/-- `tokens.pop_back()`. -/
def popBack {α : Type*} (tokens : List α) : Option (List α) :=
  if tokens.isEmpty then none else some tokens.dropLast

/-- The loop of `join` over the first `count` tokens. -/
def joinLoop (tokens : List Bytes) (delim : Bytes) : ℕ → Option Bytes
  | 0 => some []
  | i + 1 => do
      let strStream ← joinLoop tokens delim i
      let token ← tokens[i]?
      some (strStream ++ token ++ delim)

def joinAt (tokens : List Bytes) (delim : Bytes) : Option Bytes :=
  if tokens.isEmpty then some []
  else if tokens.length = 1 then tokens[0]?
  else do
    let strStream ← joinLoop tokens delim (tokens.length - 1)
    let token ← tokens[tokens.length - 1]?
    some (strStream ++ token)

def Header.parseAt (line : Bytes) : Option Header :=
  let tokens := split line colon
  if tokens.length < 2 then some ⟨[], [], false⟩
  else do
    let key ← tokens[0]?
    let tokens ← eraseFront tokens
    let value ← if tokens.length = 1 then tokens[0]? else joinAt tokens colon
    some (make key value)

namespace Request

def parseRequestLineAt (request : Request) (requestLine : Bytes) : Option (Bool × Request) :=
  let tokens := split requestLine space
  if tokens.length ≠ 3 then
    some (false, { request with
      invalidReason := ascii "Invalid first request headline: " ++ requestLine })
  else do
    let methodStr ← tokens[0]?
    let method := toMethod methodStr
    let request := { request with method }
    if method = .unsupported then
      some (false, { request with invalidReason := ascii "Unsupported method: " ++ methodStr })
    else
      let versionStr ← tokens[2]?
      let version := toVersion versionStr
      let request := { request with version }
      if version = .unsupported then
        some (false, { request with invalidReason := ascii "Unsupported version: " ++ versionStr })
      else
        let url ← tokens[1]?
        some (true, { request with
          resourceUrl := if url.isEmpty || url.getLast? = some 47 then url ++ defaultRoute else url })

def parseHeadersAt (request : Request) : List Bytes → Option Request
  | [] => some { request with isValid := true }
  | line :: lines => do
      let header ← Header.parseAt line
      if header.valid then
        let request := request.scanHeader header
        parseHeadersAt { request with headers := request.headers ++ [header] } lines
      else some { request with invalidReason := ascii "Fail to parse header line: " ++ line }

def parseAt (requestStr : Bytes) : Option Request := do
  let lines := split requestStr crlf
  let wrong ← if lines.length < 2 then some true else lines.getLast?.map (!·.isEmpty)
  if wrong then some { invalidReason := ascii "Request format is wrong." }
  else do
    let line ← lines.getLast?
    if !line.isEmpty then
      some { invalidReason := ascii "Ending of the request is not \\r\\n\\r\\n" }
    else do
      let lines ← popBack lines
      let line ← lines[0]?
      let (success, request) ← parseRequestLineAt {} line
      if success then
        let lines ← eraseFront lines
        request.parseHeadersAt lines
      else some request

end Request

end FalconLink.Http
