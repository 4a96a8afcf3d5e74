import FalconLink.Model.Cache
import FalconLink.Model.Http.Request

/-! # The surroundings of a request

Requests are answered with the help of the file system, of CGI programs and of the cache.
-/

namespace FalconLink.Http

open Search

/-! ## Files -/

/-- What a path refers to. `statError` is a path whose status cannot be read for another
reason than that nothing is there. -/
inductive FileState where
  | absent
  | regular (contents : Bytes)
  | directory
  | statError
  deriving DecidableEq, Repr

abbrev FileSystem := Bytes → FileState

/-- `std::filesystem::exists` throws when the status cannot be read. -/
def isFileExists (fs : FileSystem) (filePath : Bytes) : Except Fault Bool :=
  match fs filePath with
  | .absent => .ok false
  | .regular _ => .ok true
  | .directory => .ok true
  | .statError => .error .filesystemError

/-- `std::filesystem::file_size` throws on a directory. -/
def fileSize (fs : FileSystem) (filePath : Bytes) : Except Fault ℕ :=
  match fs filePath with
  | .regular contents => .ok contents.length
  | _ => .error .filesystemError

def getFileSize (fs : FileSystem) (filePath : Bytes) : Except Fault ℕ := do
  if ← isFileExists fs filePath then fileSize fs filePath else .error .assertionFailed

/-- The contents are appended to the buffer. The read gets at most the size that was asked for
before. -/
def loadFile (fs : FileSystem) (filePath buffer : Bytes) : Except Fault Bytes := do
  let size ← getFileSize fs filePath
  match fs filePath with
  | .regular contents => .ok (buffer ++ contents.take size)
  | _ => .error .assertionFailed

/-! ## CGI programs -/

structure Cgier where
  cgiProgramPath : Bytes
  cgiArguments : List Bytes
  valid : Bool
  deriving DecidableEq, Repr

namespace Cgier

def makeInvalidCgier : Cgier :=
  ⟨[], [], false⟩

/-- The program ends at the first `&` after the first `cgi-bin`. Without one, `find` gives
`npos`, the path is the whole url, and `npos + 1` is 0, so the arguments are cut from the whole
url too. -/
def parseCgier (resourceUrl : Bytes) : Cgier :=
  if resourceUrl.isEmpty || !isCgiRequest resourceUrl then makeInvalidCgier
  else
    let cgiPos := (firstMatch cgiBin resourceUrl).getD 0
    match (firstMatch parameterSeparator (resourceUrl.drop cgiPos)).map (cgiPos + ·) with
    | some cgiSeparator =>
        ⟨resourceUrl.take cgiSeparator,
          split (resourceUrl.drop (cgiSeparator + 1)) parameterSeparator, true⟩
    | none => ⟨resourceUrl, split resourceUrl parameterSeparator, true⟩

end Cgier

/-! ## Accesses -/

/-- The directory that is served, the files, and the outcome of `Cgier::run` for a program and
its arguments. The run is endless when the program is, and also when `execve` fails after the
logger has been started: `exit` then joins in the child a thread that the child does not have. -/
structure Env where
  httpResourceDir : Bytes
  fs : FileSystem
  run : Bytes → List Bytes → Except Fault Bytes

/-- What answering a request asks of its surroundings. -/
inductive Instr where
  | isFileExists (filePath : Bytes)
  | getFileSize (filePath : Bytes)
  | loadFile (filePath buffer : Bytes)
  | run (cgiProgramPath : Bytes) (cgiArguments : List Bytes)
  | cache (call : Cache.Call)

abbrev Instr.Answer : Instr → Type
  | isFileExists _ => Bool
  | getFileSize _ => ℕ
  | loadFile _ _ => Bytes
  | run _ _ => Bytes
  | cache call => call.Result

/-- The effect of one access. `cacheExec` is the cache that is asked. -/
def execWith {σ : Type} (env : Env) (cacheExec : Prog.Exec Cache.Call Cache.Call.Result Fault σ) :
    Prog.Exec Instr Instr.Answer Fault σ
  | .isFileExists filePath, s => (isFileExists env.fs filePath).map fun answer => (answer, s)
  | .getFileSize filePath, s => (getFileSize env.fs filePath).map fun answer => (answer, s)
  | .loadFile filePath buffer, s => (loadFile env.fs filePath buffer).map fun answer => (answer, s)
  | .run program arguments, s => (env.run program arguments).map fun answer => (answer, s)
  | .cache call, s => cacheExec call s

/-- Each call of the cache is one step. -/
def exec (env : Env) : Prog.Exec Instr Instr.Answer Fault Cache :=
  execWith env Cache.Call.exec

/-- Code that answers requests. -/
abbrev Code := Prog Instr Instr.Answer Fault

abbrev access (i : Instr) : Code i.Answer :=
  Prog.op i

end FalconLink.Http
