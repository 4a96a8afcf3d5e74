import FalconLink.Foundation.Run
import FalconLink.Model.Http.Handler
import Mathlib.Logic.Function.Basic

/-! # Runs of CGI programs

`Cgier::run` starts the program in a child process. What the child writes comes back through a
file that all runs of a thread share.
-/

namespace FalconLink.Http.Cgier

/-! ## The argument list -/

def calloc (size : ℕ) : Bytes :=
  List.replicate size 0

/-- The first bytes of a block are overwritten. -/
def memcpy (block str : Bytes) : Bytes :=
  str ++ block.drop str.length

/-- A block with the bytes of a string and a zero byte. -/
def copyOf (str : Bytes) : Bytes :=
  memcpy (calloc (str.length + 1)) str

/-- The loop of `BuildArgumentList` from the index `i`. -/
def storeArguments (argv : List (Option Bytes)) (i : ℕ) : List Bytes → List (Option Bytes)
  | [] => argv
  | argument :: arguments =>
      storeArguments (argv.set (i + 1) (some (copyOf argument))) (i + 1) arguments

/-- The blocks that `cgi_argv` points to. A null pointer is `none`. -/
def buildArgumentList (cgier : Cgier) : Except Fault (List (Option Bytes)) :=
  if cgier.cgiProgramPath.isEmpty then .error .assertionFailed
  else
    let count := cgier.cgiArguments.length
    let argv := List.replicate (count + 2) none
    let argv := argv.set 0 (some (copyOf cgier.cgiProgramPath))
    let argv := storeArguments argv 0 cgier.cgiArguments
    .ok (argv.set (count + 1) none)

/-! ## The shared file -/

def sharedFileName (threadId : Bytes) : Bytes :=
  ascii "cgi_temp" ++ ascii "_" ++ threadId ++ ascii ".txt"

/-- `open` with `O_CREAT`. -/
def createFile (fs : FileSystem) (filePath : Bytes) : FileSystem :=
  match fs filePath with
  | .absent => Function.update fs filePath (.regular [])
  | _ => fs

/-- A write to a descriptor with `O_APPEND`. -/
def appendFile (fs : FileSystem) (filePath bytes : Bytes) : FileSystem :=
  match fs filePath with
  | .regular contents => Function.update fs filePath (.regular (contents ++ bytes))
  | _ => fs

/-- `std::filesystem::remove`. It is only called on a path that has been opened as a file. -/
def deleteFile (fs : FileSystem) (filePath : Bytes) : Except Fault (Bool × FileSystem) :=
  match fs filePath with
  | .absent => .ok (false, fs)
  | .regular _ => .ok (true, Function.update fs filePath .absent)
  | _ => .error .filesystemError

/-! ## System calls -/

/-- A write to the shared file by the child of this run, or by one of an earlier run that has not
been waited for. -/
inductive Write where
  | own (bytes : Bytes)
  | straggler (bytes : Bytes)
  deriving DecidableEq, Repr

def Write.bytes : Write → Bytes
  | own bytes => bytes
  | straggler bytes => bytes

def Write.isOwn : Write → Bool
  | own _ => true
  | straggler _ => false

/-- What the system calls of a run return. -/
structure Outcome where
  /-- The descriptor from `open`, or `none` for -1. -/
  opened : Option ℕ
  forked : Bool
  /-- Whether `execve` in the child becomes the program. -/
  executed : Bool
  /-- What is written to the shared file before `waitpid` returns. When `waitpid` fails, the child
  can write more than this. -/
  writes : List Write
  harvested : Bool
  deriving DecidableEq, Repr

namespace Outcome

/-- The bytes that the child of this run has written. -/
def childWrote (outcome : Outcome) : Bytes :=
  (outcome.writes.filter Write.isOwn).flatMap Write.bytes

def succeeds (outcome : Outcome) : Bool :=
  outcome.opened.isSome && outcome.forked && outcome.executed && outcome.harvested

end Outcome

/-- A run that has returned. -/
structure Report where
  outcome : Outcome
  result : Bytes
  deriving DecidableEq, Repr

structure State where
  fs : FileSystem
  /-- The descriptors that runs have opened and not closed. -/
  descriptors : List ℕ
  /-- Children that have not been waited for and still have the shared file open. -/
  stragglers : ℕ
  /-- The runs that have returned, the last one first. -/
  reports : List Report

def initial (fs : FileSystem) : State :=
  ⟨fs, [], 0, []⟩

def writeShared (fs : FileSystem) (filePath : Bytes) (writes : List Write) : FileSystem :=
  writes.foldl (fun fs write => appendFile fs filePath write.bytes) fs

/-- The parent's side of `Cgier::run`: what it returns, and the state then. -/
def run (cgier : Cgier) (threadId : Bytes) (outcome : Outcome) (s : State) :
    Except Fault (Bytes × State) :=
  if !cgier.valid then .error .assertionFailed
  else
    let filePath := sharedFileName threadId
    match outcome.opened with
    | none => .ok (ascii "fail to create/open the file " ++ filePath, s)
    | some fd =>
        let s := { s with fs := createFile s.fs filePath, descriptors := fd :: s.descriptors }
        if !outcome.forked then .ok (ascii "fail to fork()", s)
        else
          let s := { s with
            fs := writeShared s.fs filePath outcome.writes
            descriptors := s.descriptors.erase fd }
          if !outcome.harvested then
            .ok (ascii "fail to harvest child by waitpid()",
              { s with stragglers := s.stragglers + 1 })
          else do
            let cgiResult ← loadFile s.fs filePath []
            let (_, fs) ← deleteFile s.fs filePath
            -- a child that still has the deleted file open writes to it unseen
            .ok (cgiResult, { s with fs, stragglers := 0 })

/-! ## Sequences of runs -/

/-- What the operating system can answer to a run. -/
def Possible (cgier : Cgier) (threadId : Bytes) (s : State) (outcome : Outcome) : Prop :=
  (∀ fd ∈ outcome.opened, fd ∉ s.descriptors ∧ s.fs (sharedFileName threadId) ≠ .directory ∧
    s.fs (sharedFileName threadId) ≠ .statError) ∧
  (outcome.executed = true → cgier.cgiProgramPath ≠ []) ∧
  (s.stragglers = 0 → ∀ write ∈ outcome.writes, write.isOwn = true)

instance (cgier : Cgier) (threadId : Bytes) (s : State) (outcome : Outcome) :
    Decidable (Possible cgier threadId s outcome) :=
  inferInstanceAs (Decidable (_ ∧ _ ∧ _))

inductive Event where
  | run (cgier : Cgier) (outcome : Outcome)
  /-- Between two runs, a child that has not been waited for writes to the shared file. -/
  | late (bytes : Bytes)
  deriving DecidableEq, Repr

def next (threadId : Bytes) (s : State) : Event → Option State
  | .run cgier outcome =>
      if Possible cgier threadId s outcome then
        match run cgier threadId outcome s with
        | .ok (result, t) => some { t with reports := ⟨outcome, result⟩ :: t.reports }
        | .error _ => none
      else none
  | .late bytes =>
      if 0 < s.stragglers then
        some { s with fs := appendFile s.fs (sharedFileName threadId) bytes }
      else none

end FalconLink.Http.Cgier
