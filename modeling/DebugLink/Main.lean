import DebugLink.Config.Load
import DebugLink.Invocation

/-!
The command line. A call is read, the configuration is loaded, and the command that starts the
debugger is shown, since starting it is left to the caller.
-/

set_option autoImplicit false

namespace DebugLink.CommandLine

/-- The text of a file, if it can be read. -/
def readFile? (path : String) : IO (Option String) := do
  try
    return some (← IO.FS.readFile path)
  catch _ =>
    return none

/-- The path from the root of the file system that a text stands for, as seen from a directory. -/
def absolute (directory path : String) : Path :=
  let whole := if path.toList.head? = some '/' then path else directory ++ "/" ++ path
  Path.ofText (String.ofList (whole.toList.dropWhile (· = '/')))

/-- Adds a file to a tree, if it can be read. -/
def withFile (tree : FileTree) (path : Path) : IO FileTree := do
  match ← readFile? ("/" ++ path.text) with
  | some text => return (tree.add? path text).getD tree
  | none => return tree

/-- The directory of the user's configuration, if the environment names one. -/
def userDirectory? : IO (Option Path) := do
  match ← IO.getEnv "XDG_CONFIG_HOME", ← IO.getEnv "HOME" with
  | some directory, _ => return some ((absolute "/" directory).append ["migdb"])
  | none, some home => return some ((absolute "/" home).append [".config", "migdb"])
  | none, none => return none

/-- Creates the configuration file of the user. -/
def create (directory : Path) : IO Unit := do
  IO.FS.createDirAll ("/" ++ directory.text)
  IO.FS.writeFile ("/" ++ (directory.append [Config.fileName]).text) Config.initialText

/-- Loads the files of the user and of the project in a directory. -/
def loadDefault (current : Path) : IO (Except ConfigError Config) := do
  match ← userDirectory? with
  | none => return .ok Config.standard
  | some directory =>
    let file := directory.append [Config.fileName]
    let candidates := current.ancestors.map (·.append [Config.projectDirectory, Config.fileName])
    let tree ← (file :: candidates).foldlM withFile FileTree.empty
    if !tree.contains file then
      try create directory catch _ => return .error .uncreatable
    return (Config.load tree directory (some current)).1

/-- The configuration that a call asks for. Only a file that the call names must be usable. -/
def configOf (call : Invocation) : IO (Except String Config) := do
  let current := (← IO.currentDir).toString
  match call.config with
  | some file =>
    let path := absolute current file
    match Config.loadFile (← withFile FileTree.empty path) path with
    | .ok config => return .ok config
    | .error e => return .error ("loading " ++ file ++ ": " ++ e.message)
  | none =>
    match ← loadDefault (absolute "/" current) with
    | .ok config => return .ok config
    | .error e =>
      IO.eprintln ("migdb: config load failed, using defaults: " ++ e.message)
      return .ok Config.standard

/-- Shows how the debugger is started under a configuration. -/
def showStart (config : Config) : IO Unit :=
  IO.println (" ".intercalate (config.program :: config.debuggerArguments none))

/-- Does what a call asks for; the result is the exit code. -/
def run (arguments : List String) : IO UInt32 := do
  match Invocation.read? arguments with
  | .error e => IO.eprintln ("migdb: " ++ e.message); return 1
  | .ok none => IO.println Invocation.usage; return 0
  | .ok (some call) =>
    match ← configOf call with
    | .error message => IO.eprintln ("migdb: " ++ message); return 1
    | .ok config => showStart config; return 0

end DebugLink.CommandLine

def main (arguments : List String) : IO UInt32 :=
  DebugLink.CommandLine.run arguments
