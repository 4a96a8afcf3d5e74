import FalconLink.Foundation.Paths
import FalconLink.Model.Bytes

/-! # Paths as the operating system reads them

Without symbolic links a path leads from the root or from the working directory along its
components.
-/

namespace FalconLink.FilePaths

open Paths

/-- A place in the file system: the names on the way to it from the root. -/
abbrev Place := List Bytes

def slash : UInt8 := 47

/-- A C string ends before its first NUL byte. -/
def cString (path : Bytes) : Bytes :=
  path.takeWhile (· ≠ 0)

/-- A component of a path. An empty one and `.` lead nowhere. -/
def move (component : Bytes) : List (Move Bytes) :=
  if component = [] ∨ component = ascii "." then []
  else if component = ascii ".." then [.up]
  else [.down component]

def moves (path : Bytes) : List (Move Bytes) :=
  (path.splitOn slash).flatMap move

/-- Where the path begins. -/
def base (cwd : Place) (path : Bytes) : Place :=
  if path.head? = some slash then [] else cwd

/-- The place that a path names. -/
def resolve (cwd : Place) (path : Bytes) : Place :=
  walk (base cwd (cString path)) (moves (cString path))

end FalconLink.FilePaths
