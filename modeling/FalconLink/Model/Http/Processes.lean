import FalconLink.Foundation.Run
import FalconLink.Model.Http.Cgi

/-! # Programs of several threads at a time

The reactors of `T` run CGI programs at the same time. They share the descriptors of the process,
and a child starts with a copy of all of them.
-/

namespace FalconLink.Http.Processes

/-- A file on the disk. A deleted one is there as long as somebody has it open. -/
abbrev Inode := ℕ

/-- What a descriptor refers to. -/
inductive Object where
  | standard
  | socket
  | file (inode : Inode)
  deriving DecidableEq, Repr

abbrev Descriptors := ℕ → Option Object

/-- Where a thread is in `Cgier::run`. -/
inductive Phase where
  | idle
  | opened (fd : ℕ)
  /-- In the parent after `fork`, and `close` is still to come. -/
  | forked (fd pid : ℕ)
  | waiting (pid : ℕ)
  /-- `waitpid` has returned. -/
  | harvested (pid : ℕ)
  /-- In `loadFile`, which has asked for the size of the file. -/
  | loading (pid size : ℕ)
  | loaded (pid : ℕ) (cgiResult : Bytes)
  /-- The file was not there: `getFileSize` has thrown, or an assertion of `loadFile` has failed. -/
  | failed
  deriving DecidableEq, Repr

inductive ChildPhase where
  | forked (fd : ℕ)
  /-- After `dup2`. -/
  | redirected (fd : ℕ)
  | closed
  /-- `execve` has become the program. -/
  | executing
  /-- `execve` has failed. `exit` writes what the streams have buffered. -/
  | exiting
  | exited
  deriving DecidableEq, Repr

/-- `wrote` records what the child has written to its standard output. -/
structure Child (T : Type) where
  thread : T
  phase : ChildPhase
  descriptors : Descriptors
  wrote : Bytes

/-- A run whose system calls have all succeeded. `execve` can have failed in the child. -/
structure Report (T : Type) where
  thread : T
  wrote : Bytes
  result : Bytes
  deriving DecidableEq, Repr

/-- `creator` records the thread that has created a file. -/
structure State (T : Type) where
  names : Bytes → Option Inode
  contents : Inode → Bytes
  creator : Inode → Option T
  nextInode : Inode
  descriptors : Descriptors
  threads : T → Phase
  children : ℕ → Option (Child T)
  nextPid : ℕ
  reports : List (Report T)

inductive Event (T : Type) where
  /-- `open`, with the descriptor or `none` for -1. -/
  | openShared (t : T) (result : Option ℕ)
  | fork (t : T) (succeeds : Bool)
  | close (t : T)
  | waitpid (t : T) (succeeds : Bool)
  | getFileSize (t : T)
  | read (t : T)
  | deleteFile (t : T)
  | dup2 (pid : ℕ)
  | closeInChild (pid : ℕ)
  | execve (pid : ℕ) (succeeds : Bool)
  | write (pid fd : ℕ) (bytes : Bytes)
  /-- The child returns or is killed. -/
  | exit (pid : ℕ)
  /-- `accept`, in any thread. -/
  | openSocket (fd : ℕ)
  | closeSocket (fd : ℕ)

variable {T : Type} [DecidableEq T]

/-- Descriptors 0, 1 and 2 are open. -/
def initial (T : Type) : State T where
  names := fun _ => none
  contents := fun _ => []
  creator := fun _ => none
  nextInode := 0
  descriptors := fun fd => if fd < 3 then some .standard else none
  threads := fun _ => .idle
  children := fun _ => none
  nextPid := 1
  reports := []

def STDOUT_FILENO : ℕ := 1

def setThread (s : State T) (t : T) (phase : Phase) : State T :=
  { s with threads := Function.update s.threads t phase }

def setChild (s : State T) (pid : ℕ) (child : Child T) : State T :=
  { s with children := Function.update s.children pid (some child) }

/-- The file under the name, which is created when it is not there. -/
def create (s : State T) (t : T) (filePath : Bytes) : Inode × State T :=
  match s.names filePath with
  | some inode => (inode, s)
  | none => (s.nextInode, { s with
      names := Function.update s.names filePath (some s.nextInode)
      contents := Function.update s.contents s.nextInode []
      creator := Function.update s.creator s.nextInode (some t)
      nextInode := s.nextInode + 1 })

def openShared (s : State T) (t : T) (filePath : Bytes) (fd : ℕ) : State T :=
  let (inode, s) := create s t filePath
  setThread { s with descriptors := Function.update s.descriptors fd (some (.file inode)) } t
    (.opened fd)

def fork (s : State T) (t : T) (fd : ℕ) : State T :=
  setThread { s with
    children := Function.update s.children s.nextPid (some ⟨t, .forked fd, s.descriptors, []⟩)
    nextPid := s.nextPid + 1 } t (.forked fd s.nextPid)

/-- With `O_APPEND`, a write is at the end of the file. -/
def write (s : State T) (pid : ℕ) (child : Child T) (fd : ℕ) (bytes : Bytes) : State T :=
  let wrote := if fd = STDOUT_FILENO then child.wrote ++ bytes else child.wrote
  let s := setChild s pid { child with wrote }
  match child.descriptors fd with
  | some (.file inode) =>
      { s with contents := Function.update s.contents inode (s.contents inode ++ bytes) }
  | _ => s

/-- What a process has written to its standard output. -/
def wrote (s : State T) (pid : ℕ) : Bytes :=
  ((s.children pid).map Child.wrote).getD []

def hasExited (s : State T) (pid : ℕ) : Prop :=
  (s.children pid).map Child.phase = some .exited

instance (s : State T) (pid : ℕ) : Decidable (hasExited s pid) :=
  inferInstanceAs (Decidable ((s.children pid).map Child.phase = some .exited))

/-- A step of a child. -/
def childStep (s : State T) (pid : ℕ) (step : Child T → Option (Child T)) : Option (State T) :=
  ((s.children pid).bind step).map (setChild s pid)

def dup2 (child : Child T) : Option (Child T) :=
  match child.phase with
  | .forked fd => some { child with
      phase := .redirected fd
      descriptors := Function.update child.descriptors STDOUT_FILENO (child.descriptors fd) }
  | _ => none

def closeInChild (child : Child T) : Option (Child T) :=
  match child.phase with
  | .redirected fd => some { child with
      phase := .closed
      descriptors := Function.update child.descriptors fd none }
  | _ => none

def execve (succeeds : Bool) (child : Child T) : Option (Child T) :=
  match child.phase with
  | .closed => some { child with phase := if succeeds then .executing else .exiting }
  | _ => none

def exit (child : Child T) : Option (Child T) :=
  match child.phase with
  | .exited => none
  | _ => some { child with phase := .exited }

/-- `id` is what `std::this_thread::get_id()` prints in a thread. -/
def next (id : T → Bytes) (s : State T) : Event T → Option (State T)
  | .openShared t result =>
      match s.threads t, result with
      | .idle, some fd =>
          if s.descriptors fd = none then
            some (openShared s t (Cgier.sharedFileName (id t)) fd)
          else none
      | .idle, none => some s
      | _, _ => none
  | .fork t succeeds =>
      match s.threads t with
      | .opened fd => some (if succeeds then fork s t fd else setThread s t .idle)
      | _ => none
  | .close t =>
      match s.threads t with
      | .forked fd pid =>
          some (setThread { s with descriptors := Function.update s.descriptors fd none } t
            (.waiting pid))
      | _ => none
  | .waitpid t succeeds =>
      match s.threads t with
      | .waiting pid =>
          if succeeds then
            if hasExited s pid then some (setThread s t (.harvested pid)) else none
          else some (setThread s t .idle)
      | _ => none
  | .getFileSize t =>
      match s.threads t with
      | .harvested pid =>
          match s.names (Cgier.sharedFileName (id t)) with
          | some inode => some (setThread s t (.loading pid (s.contents inode).length))
          | none => some (setThread s t .failed)
      | _ => none
  | .read t =>
      match s.threads t with
      | .loading pid size =>
          match s.names (Cgier.sharedFileName (id t)) with
          | some inode => some (setThread s t (.loaded pid ((s.contents inode).take size)))
          | none => some (setThread s t .failed)
      | _ => none
  | .deleteFile t =>
      match s.threads t with
      | .loaded pid cgiResult =>
          some (setThread { s with
            names := Function.update s.names (Cgier.sharedFileName (id t)) none
            reports := s.reports ++ [⟨t, wrote s pid, cgiResult⟩] } t .idle)
      | _ => none
  | .dup2 pid => childStep s pid dup2
  | .closeInChild pid => childStep s pid closeInChild
  | .execve pid succeeds => childStep s pid (execve succeeds)
  | .exit pid => childStep s pid exit
  | .write pid fd bytes =>
      (s.children pid).bind fun child =>
        if child.phase = .executing ∨ child.phase = .exiting then
          some (write s pid child fd bytes)
        else none
  | .openSocket fd =>
      if s.descriptors fd = none then
        some { s with descriptors := Function.update s.descriptors fd (some .socket) }
      else none
  | .closeSocket fd =>
      if s.descriptors fd = some .socket then
        some { s with descriptors := Function.update s.descriptors fd none }
      else none

end FalconLink.Http.Processes
