import DebugLink.Text.Whitespace

/-!
Paths as they are written. The parts between the slashes are kept, also those that lead nowhere: an
empty part and "." stay where they are, and ".." goes back to the directory around. What a part
leads to is decided by the file tree, so a path is never shortened by its parts alone.
-/

set_option autoImplicit false

namespace DebugLink

/-- A path that starts at the root of a file tree, by the parts between its slashes. -/
structure Path where
  parts : List String
  deriving DecidableEq, Repr

namespace Path

/-- The path of the root itself. -/
def root : Path :=
  ⟨[]⟩

/-- The parts of a text. -/
def ofText (s : String) : Path :=
  if s.isEmpty then root else ⟨(Text.splitAt '/' s.toList).map String.ofList⟩

/-- The path as it is written. -/
def text (path : Path) : String :=
  "/".intercalate path.parts

/-- Whether a part leads to where it stands. -/
def stays (part : String) : Bool :=
  part = "" || part = "."

/-- The part that goes back to the directory around. -/
def upwards : String := ".."

/-- A path that goes on. -/
def append (path : Path) (parts : List String) : Path :=
  ⟨path.parts ++ parts⟩

/-- A path without parts at its end that stay. -/
def trimmed (path : Path) : Path :=
  ⟨(path.parts.reverse.dropWhile stays).reverse⟩

/-- What leads to the last part that does not stay. -/
def parent (path : Path) : Path :=
  trimmed ⟨path.trimmed.parts.dropLast⟩

/-- The name at the end of a path. One that goes back at its end has none. -/
def name? (path : Path) : Option String :=
  path.trimmed.parts.getLast?.filter (· ≠ upwards)

/-- Whether a path ends with a name, perhaps with slashes after it. -/
def endsInName (path : Path) : Bool :=
  path.parts.reverse.find? (· ≠ "") |>.any fun part ↦ !stays part && part ≠ upwards

/-- A path and all that lead to it, the longest one first. -/
def ancestors (path : Path) : List Path :=
  let initial := (List.range path.trimmed.parts.length).map fun n ↦ Path.mk (path.parts.take n)
  path :: (initial.filter fun before ↦ before.trimmed = before).reverse

/-- The number of bytes that a path must stay below. -/
def lengthBound : Nat := 4080

/-- Whether a path can lead anywhere in a tree. One that starts with a slash leads out of it, no
name has a null character, and the text has its bound. -/
def isAdmissible (path : Path) : Bool :=
  path.parts.head? ≠ some "" && path.text.utf8ByteSize < lengthBound &&
    !path.text.toList.contains '\x00'

end Path

end DebugLink
