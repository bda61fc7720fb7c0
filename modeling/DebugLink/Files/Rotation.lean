import DebugLink.Files.Tree

/-!
The rotation of logs. A log that has grown to its limit is set aside under the number 1; those set
aside before move up by one, and the one with the highest number is given up.
-/

set_option autoImplicit false

namespace DebugLink.FileTree

/-- The path of a log that was set aside. -/
def rotated (log : Path) (index : Nat) : Path :=
  log.parent.append [log.name?.getD "" ++ "." ++ toString index]

/-- Makes the directory of a log, unless there is something of its name. -/
def ensureDirectoryOf (log : Path) : Change := fun tree ↦
  if tree.contains log.parent then (true, tree) else makeDirectories log.parent tree

/-- Moves the log of a number up by one, if there is one. -/
def shiftUp (log : Path) (index : Nat) : Change :=
  Change.onExisting (rotated log index) (·.rename? (rotated log index) (rotated log (index + 1)))

/-- Sets a log aside if it has at least `maxSize` bytes, keeping at most `maxFiles` of those set
aside. The result says whether all went well. -/
def rotate (log : Path) (maxSize maxFiles : Nat) : Change := fun tree ↦
  match tree.size? log with
  | none => (true, tree)
  | some size =>
    if size < maxSize then (true, tree)
    else
      Change.inOrder
        ([Change.onExisting (rotated log maxFiles) (·.removeFile? (rotated log maxFiles))] ++
          ((List.range' 1 (maxFiles - 1)).reverse.map (shiftUp log)) ++
          [Change.attempt (·.rename? log (rotated log 1))]) tree

end DebugLink.FileTree
