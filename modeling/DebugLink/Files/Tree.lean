import DebugLink.Files.Path

/-!
File trees: directories and files by the names on the way to them. Whatever is in a tree lies in
directories that are there. A path leads to a place if all that it passes are directories. The
operations fail where a file system refuses them.
-/

set_option autoImplicit false

namespace DebugLink

/-- A place in a tree, by the names on the way from the root to it. -/
abbrev Location : Type := List String

/-- What stands at a place. -/
inductive FileNode
  | file (content : String)
  | directory
  deriving DecidableEq, Repr

/-- A file tree, by the places of all that is in it. The root is not listed. -/
structure FileTree where
  nodes : List (Location × FileNode)
  deriving DecidableEq, Repr

namespace FileTree

/-- The tree with nothing in it. -/
def empty : FileTree :=
  ⟨[]⟩

/-! ### Places -/

/-- What stands at a place. -/
def nodeAt? (tree : FileTree) (place : Location) : Option FileNode :=
  if place.isEmpty then some .directory else tree.nodes.lookup place

/-- Replaces or adds what stands at a place. -/
def put (tree : FileTree) (place : Location) (node : FileNode) : FileTree :=
  ⟨tree.nodes.filter (·.1 ≠ place) ++ [(place, node)]⟩

/-- The number of bytes that a name may have. -/
def nameLimit : Nat := 255

/-- Where a part of a path leads from a directory. There is nothing around the root. -/
def next? (place : Location) (part : String) : Option Location :=
  if Path.stays part then some place
  else if part = Path.upwards then if place.isEmpty then none else some place.dropLast
  else if part.utf8ByteSize ≤ nameLimit then some (place ++ [part])
  else none

/-- Where parts of a path lead from a place. Every part needs a directory to start at, so there need
not be anything only at the place that the last one leads to. -/
def follow? (tree : FileTree) : Location → List String → Option Location
  | place, [] => some place
  | place, part :: rest => do
    if tree.nodeAt? place = some .directory then tree.follow? (← next? place part) rest else none

/-- The place that a path leads to. -/
def locate? (tree : FileTree) (path : Path) : Option Location :=
  if path.isAdmissible then tree.follow? [] path.parts else none

/-! ### Looking -/

/-- What a path leads to. -/
def get? (tree : FileTree) (path : Path) : Option FileNode :=
  tree.locate? path >>= tree.nodeAt?

def contains (tree : FileTree) (path : Path) : Bool :=
  (tree.get? path).isSome

/-- The content of a file. -/
def read? (tree : FileTree) (path : Path) : Option String :=
  match tree.get? path with
  | some (.file content) => some content
  | _ => none

/-- The size that a directory is reported to have. -/
def directorySize : Nat := 4096

/-- The size of what a path leads to, in bytes. -/
def size? (tree : FileTree) (path : Path) : Option Nat :=
  (tree.get? path).map fun
    | .file content => content.utf8ByteSize
    | .directory => directorySize

/-! ### Changing -/

/-- Writes a file into a directory that is there. -/
def write? (tree : FileTree) (path : Path) (content : String) : Option FileTree := do
  let place ← tree.locate? path
  if tree.nodeAt? place = some .directory then none else return tree.put place (.file content)

/-- Makes a directory in one that is there, if it is missing. Only one with its name at the end of
the path can be made. -/
def makeDirectory? (tree : FileTree) (path : Path) : Option FileTree := do
  if tree.get? path = some .directory then return tree
  let place ← tree.locate? path.trimmed
  if path.endsInName ∧ tree.nodeAt? place = none then return tree.put place .directory else none

/-- Removes a file. -/
def removeFile? (tree : FileTree) (path : Path) : Option FileTree := do
  let place ← tree.locate? path
  match tree.nodeAt? place with
  | some (.file _) => some ⟨tree.nodes.filter (·.1 ≠ place)⟩
  | _ => none

/-- Whether anything lies in a directory. -/
def isOccupied (tree : FileTree) (place : Location) : Bool :=
  tree.nodes.any fun node ↦ place.isPrefixOf node.1 && node.1 ≠ place

/-- Whether something of one kind may be moved to where something else stands. A file replaces a
file, and a directory one that is empty. -/
def mayReplace (tree : FileTree) (source target : FileNode) (place : Location) : Bool :=
  match source, target with
  | .file _, .file _ => true
  | .directory, .directory => !tree.isOccupied place
  | _, _ => false

/-- The place that something below a moved place has afterwards. -/
def movedPlace (source target place : Location) : Location :=
  if source.isPrefixOf place then target ++ place.drop source.length else place

/-- Moves a file, or a directory with everything in it. Only what has its name at the end of the
path can be moved. -/
def rename? (tree : FileTree) (source target : Path) : Option FileTree := do
  if !source.endsInName then none
  let source ← tree.locate? source
  let node ← tree.nodeAt? source
  let target ← tree.locate? target
  if source = target then return tree
  else if source.isPrefixOf target then none
  else
    match tree.nodeAt? target with
    | some other => if tree.mayReplace node other target then pure () else none
    | none => pure ()
    return ⟨(tree.nodes.filter (·.1 ≠ target)).map fun entry ↦
      (movedPlace source target entry.1, entry.2)⟩

/-! ### Several changes in a row -/

/-- A change that tells whether all went well. What was done before something failed remains. -/
abbrev Change : Type := FileTree → Bool × FileTree

namespace Change

/-- Does an operation. -/
def attempt (operation : FileTree → Option FileTree) : Change := fun tree ↦
  match operation tree with
  | some tree => (true, tree)
  | none => (false, tree)

/-- Does an operation on a path if there is something. -/
def onExisting (path : Path) (operation : FileTree → Option FileTree) : Change := fun tree ↦
  if tree.contains path then attempt operation tree else (true, tree)

/-- Does changes in order, as long as none fails. -/
def inOrder : List Change → Change
  | [], tree => (true, tree)
  | change :: rest, tree =>
    match change tree with
    | (true, tree) => inOrder rest tree
    | (false, tree) => (false, tree)

end Change

/-- Makes a directory, and those on the way to it that are missing. -/
def makeDirectories (path : Path) : Change := fun tree ↦
  if path.isAdmissible then
    Change.inOrder (path.ancestors.reverse.map fun before ↦
      Change.attempt (·.makeDirectory? before)) tree
  else (false, tree)

/-! ### Whole trees -/

/-- Adds a file with the directories it lies in, or with a slash at the end of the path a
directory. -/
def add? (tree : FileTree) (path : Path) (content : String) : Option FileTree :=
  if path.parts.getLast? = some "" then
    match makeDirectories path tree with
    | (true, tree) => some tree
    | (false, _) => none
  else
    match makeDirectories path.parent tree with
    | (true, tree) => tree.write? path content
    | (false, _) => none

/-- The files with their contents, and the directories with nothing in them, which have a slash at
the end; sorted by their paths. -/
def listing (tree : FileTree) : List (String × String) :=
  (tree.nodes.filterMap fun entry ↦
    let path := Path.text ⟨entry.1⟩
    match entry.2 with
    | .file content => some (path, content)
    | .directory => if tree.isOccupied entry.1 then none else some (path ++ "/", "")
  ).mergeSort fun a b ↦ a.1 ≤ b.1

end FileTree

end DebugLink
