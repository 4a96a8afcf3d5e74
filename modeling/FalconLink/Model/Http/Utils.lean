import FalconLink.Foundation.Search
import FalconLink.Model.Bytes

/-! # Strings and enumerations of the HTTP layer -/

namespace FalconLink.Http

open Search

/-! ## Constants -/

def parameterSeparator : Bytes := ascii "&"
def space : Bytes := ascii " "
def dot : UInt8 := 46
def crlf : Bytes := ascii "\r\n"
def colon : Bytes := ascii ":"
def defaultRoute : Bytes := ascii "index.html"
def cgiBin : Bytes := ascii "cgi-bin"

def headerServer : Bytes := ascii "Server"
def serverFalconlink : Bytes := ascii "Falonlink/1.0"
def headerContentLength : Bytes := ascii "Content-Length"
def headerContentType : Bytes := ascii "Content-Type"
def contentLengthZero : Bytes := ascii "0"
def headerConnection : Bytes := ascii "Connection"
def connectionClose : Bytes := ascii "Close"
def connectionKeepAlive : Bytes := ascii "Keep-Alive"
def httpVersion : Bytes := ascii "HTTP/1.1"

def mimeHtml : Bytes := ascii "text/html"
def mimeCss : Bytes := ascii "text/css"
def mimePng : Bytes := ascii "image/png"
def mimeJpg : Bytes := ascii "image/jpg"
def mimeJpeg : Bytes := ascii "image/jpeg"
def mimeGif : Bytes := ascii "image/gif"
def mimeOctet : Bytes := ascii "application/octet-stream"

def responseOk : Bytes := ascii "200 OK"
def responseBadRequest : Bytes := ascii "400 Bad Request"
def responseNotFound : Bytes := ascii "404 Not Found"
def responseServiceUnavailable : Bytes := ascii "503 Service Unavailable"

/-- What ends a request in the read buffer of a connection. -/
def crlfcrlf : Bytes := ascii "\r\n\r\n"

/-! ## String functions -/

/-- The rounds of `split`. Each one moves past a delimiter, so that the number of bytes is
enough of them. -/
def splitAux (delim : Bytes) : ℕ → Bytes → List Bytes
  | 0, _ => []
  | rounds + 1, str =>
      match firstMatch delim str with
      | some next => str.take next :: splitAux delim rounds (str.drop (next + delim.length))
      | none => if str.isEmpty then [] else [str]

/-- A last token is only there when it is not empty. -/
def split (str delim : Bytes) : List Bytes :=
  splitAux delim str.length str

/-- The loop of `split` as it stands in the source, with the position `curr` and the tokens so
far, when it ends within a number of rounds. -/
def splitLoop (str delim : Bytes) : List Bytes → ℕ → ℕ → Option (List Bytes)
  | _, _, 0 => none
  | tokens, curr, rounds + 1 =>
      match (firstMatch delim (str.drop curr)).map (curr + ·) with
      | some next =>
          splitLoop str delim (tokens ++ [(str.drop curr).take (next - curr)])
            (next + delim.length) rounds
      | none => some (if curr ≠ str.length then tokens ++ [str.drop curr] else tokens)

def splitWithin (str delim : Bytes) (rounds : ℕ) : Option (List Bytes) :=
  if str.isEmpty then some [] else splitLoop str delim [] 0 rounds

def join (tokens : List Bytes) (delim : Bytes) : Bytes :=
  delim.intercalate tokens

/-- Remove the leading and trailing bytes that occur in `delim`. -/
def trim (str delim : Bytes) : Bytes :=
  (((str.reverse.dropWhile (delim.contains ·)).reverse).dropWhile (delim.contains ·))

/-- `std::toupper` in the C locale. -/
def toUpperByte (c : UInt8) : UInt8 :=
  if 97 ≤ c ∧ c ≤ 122 then c - 32 else c

def toUpper (str : Bytes) : Bytes :=
  str.map toUpperByte

def format (str : Bytes) : Bytes :=
  toUpper (trim str space)

/-! ## Enumerations -/

inductive Method where
  | get | head | unsupported
  deriving DecidableEq, Repr

inductive Version where
  | http1_1 | unsupported
  deriving DecidableEq, Repr

inductive Extension where
  | html | css | png | jpg | jpeg | gif | octet
  deriving DecidableEq, Repr

/-- `METHOD_TO_STRING`. -/
def Method.toBytes : Method → Bytes
  | get => ascii "GET"
  | head => ascii "HEAD"
  | unsupported => ascii "UNSUPPORTED"

/-- `VERSION_TO_STRING`. -/
def Version.toBytes : Version → Bytes
  | http1_1 => ascii "HTTP/1.1"
  | unsupported => ascii "UNSUPPORTED"

/-- `EXTENSION_TO_STRING`. -/
def Extension.toBytes : Extension → Bytes
  | html => ascii "HTML"
  | css => ascii "CSS"
  | png => ascii "PNG"
  | jpg => ascii "JPG"
  | jpeg => ascii "JPEG"
  | gif => ascii "GIF"
  | octet => ascii "OCTET"

def toMethod (methodStr : Bytes) : Method :=
  if format methodStr = Method.get.toBytes then .get
  else if format methodStr = Method.head.toBytes then .head
  else .unsupported

def toVersion (versionStr : Bytes) : Version :=
  if format versionStr = Version.http1_1.toBytes then .http1_1 else .unsupported

def toExtension (extensionStr : Bytes) : Extension :=
  if format extensionStr = Extension.html.toBytes then .html
  else if format extensionStr = Extension.css.toBytes then .css
  else if format extensionStr = Extension.png.toBytes then .png
  else if format extensionStr = Extension.jpg.toBytes then .jpg
  else if format extensionStr = Extension.jpeg.toBytes then .jpeg
  else if format extensionStr = Extension.gif.toBytes then .gif
  else .octet

def extensionToMime : Extension → Bytes
  | .html => mimeHtml
  | .css => mimeCss
  | .png => mimePng
  | .jpg => mimeJpg
  | .jpeg => mimeJpeg
  | .gif => mimeGif
  | .octet => mimeOctet

def isCgiRequest (resourceUrl : Bytes) : Bool :=
  (firstMatch cgiBin resourceUrl).isSome

/-! ## Decoding of URLs -/

/-- `isspace` in the C locale. -/
def isSpace (c : UInt8) : Bool :=
  c = 32 || (9 ≤ c && c ≤ 13)

def hexDigit (c : UInt8) : Option UInt8 :=
  if 48 ≤ c ∧ c ≤ 57 then some (c - 48)
  else if 65 ≤ c ∧ c ≤ 70 then some (c - 55)
  else if 97 ≤ c ∧ c ≤ 102 then some (c - 87)
  else none

def readHexDigits (value : UInt8) : Bytes → UInt8
  | [] => value
  | c :: str =>
      match hexDigit c with
      | some digit => readHexDigits (value * 16 + digit) str
      | none => value

/-- `is >> std::hex >> tmp` on a stream of at most two bytes, with `tmp` cast to `char`. The
extraction skips white space and takes a sign; when it finds no number `tmp` is 0. -/
def extractHex (str : Bytes) : UInt8 :=
  match str.dropWhile isSpace with
  | 43 :: digits => readHexDigits 0 digits
  | 45 :: digits => 0 - readHexDigits 0 digits
  | digits => readHexDigits 0 digits

/-- A `%` takes the two bytes after it, or those that are left. -/
def urlDecode : Bytes → Bytes
  | [] => []
  | [37] => [extractHex []]
  | [37, a] => [extractHex [a]]
  | 37 :: a :: b :: value => extractHex [a, b] :: urlDecode value
  | c :: value => (if c = 43 then 32 else c) :: urlDecode value

end FalconLink.Http
