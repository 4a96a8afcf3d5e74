import FalconLink.Foundation.Search
import FalconLink.Model.Bytes

/-! # Buffers -/

namespace FalconLink

open Search

/-- `buf_` is the content. -/
structure Buffer where
  buf : Bytes
  deriving DecidableEq, Repr

namespace Buffer

def empty : Buffer :=
  ⟨[]⟩

/-- All overloads of `append` add bytes at the end. -/
def append (buffer : Buffer) (newData : Bytes) : Buffer :=
  ⟨buffer.buf ++ newData⟩

def size (buffer : Buffer) : ℕ :=
  buffer.buf.length

/-- What is popped, `none` for `std::nullopt`, and the buffer then. -/
def findAndPopTill (buffer : Buffer) (target : Bytes) : Option Bytes × Buffer :=
  match firstMatch target buffer.buf with
  | some pos =>
      (some (buffer.buf.take (pos + target.length)), ⟨buffer.buf.drop (pos + target.length)⟩)
  | none => (none, buffer)

/-- The calls of `findAndPopTill` in a loop that ends with the first `std::nullopt`, at most
`rounds` of them. -/
def popAll (target : Bytes) : ℕ → Buffer → List Bytes × Buffer
  | 0, buffer => ([], buffer)
  | rounds + 1, buffer =>
      match buffer.findAndPopTill target with
      | (some frame, rest) =>
          (frame :: (popAll target rounds rest).1, (popAll target rounds rest).2)
      | (none, rest) => ([], rest)

/-- Every string that is popped takes bytes from the buffer, so that its size is enough rounds. -/
def drain (target : Bytes) (buffer : Buffer) : List Bytes × Buffer :=
  popAll target buffer.size buffer

/-- The buffer is drained after each arrival. -/
def drainEach (target : Bytes) : Buffer → List Bytes → List Bytes × Buffer
  | buffer, [] => ([], buffer)
  | buffer, newData :: later =>
      let drained := drain target (buffer.append newData)
      let rest := drainEach target drained.2 later
      (drained.1 ++ rest.1, rest.2)

/-! ## Sequences of calls -/

inductive Call where
  | append (newData : Bytes)
  | findAndPopTill
  deriving DecidableEq, Repr

/-- A buffer with all that has been appended to it and the strings that have been popped. -/
structure State where
  buffer : Buffer
  appended : Bytes
  popped : List Bytes
  deriving DecidableEq, Repr

def initial : State :=
  ⟨empty, [], []⟩

def step (target : Bytes) (s : State) : Call → State
  | .append newData =>
      { s with buffer := s.buffer.append newData, appended := s.appended ++ newData }
  | .findAndPopTill =>
      match s.buffer.findAndPopTill target with
      | (some frame, rest) => { s with buffer := rest, popped := s.popped ++ [frame] }
      | (none, rest) => { s with buffer := rest }

def exec (target : Bytes) (s : State) (calls : List Call) : State :=
  calls.foldl (step target) s

end Buffer

end FalconLink
