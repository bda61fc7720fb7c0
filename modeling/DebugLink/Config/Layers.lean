import DebugLink.Config.Overlay
import DebugLink.Files.Tree

/-!
Loading a configuration from files. The layers are put on top of each other, the last one on top,
and the result is checked once all are in place, so that a layer may mend what a lower one sets. The
file of the user is created when it is missing; that of a project is searched for upwards. How the
text of a file is read as an overlay is not decided here.
-/

set_option autoImplicit false

namespace DebugLink

/-- Why no configuration can be loaded. -/
inductive ConfigError
  /-- The file that was asked for does not exist. -/
  | notFound
  /-- The file of the user could not be created. -/
  | uncreatable
  /-- A file is no overlay. -/
  | unreadable
  | invalid (violation : Violation)
  /-- The file system refused an operation. -/
  | fileSystem
  deriving DecidableEq, Repr

/-- What went wrong, in words. -/
def ConfigError.message : ConfigError → String
  | notFound => "config file not found"
  | uncreatable => "failed to create default config"
  | unreadable => "TOML parse error"
  | invalid violation => violation.message
  | fileSystem => "I/O error"

namespace Config

/-- What reads the text of a configuration file. -/
structure Reader where
  /-- The overlay that a text holds, if it holds one. -/
  overlay? : String → Option Overlay

/-- Whether a line is neither blank nor a comment. -/
def isContent (line : List Char) : Bool :=
  match Text.trimStart line with
  | [] => false
  | c :: _ => c ≠ '#'

/-- Whether a text holds anything but comments and blank lines. -/
def hasContent (text : String) : Bool :=
  (Text.splitAt '\n' text.toList).any isContent

/-- The configuration, unless something is wrong with it. -/
def validated (config : Config) : Except ConfigError Config :=
  match config.violations with
  | [] => .ok config
  | first :: _ => .error (.invalid first)

/-! ### The files of the user and of a project -/

/-- The name of a configuration file. -/
def fileName : String := "config.toml"

/-- The directory of a project that holds its configuration file. -/
def projectDirectory : String := ".migdb"

/-- The lines of a new configuration file: everything that can be set, commented out. -/
def initialLines : List String :=
  ["# migdb configuration",
    "# Uncomment and edit settings below to override defaults.",
    "",
    "# [debugger]",
    "# program = \"gdb\"",
    "# args = [\"-nx\"]",
    "# use_tty = true",
    "",
    "# [session]",
    "# command_timeout_ms = 5000",
    "# first_token = 1000001",
    "# auto_update_vars = true",
    "",
    "# [watch]",
    "# max_container_elements = 1000",
    "",
    "# [log]",
    "# level = \"info\"",
    "# file = \"/tmp/migdb.log\""]

/-- What is written into a new configuration file. -/
def initialText : String :=
  String.join (initialLines.map (· ++ "\n"))

/-- Creates the configuration file of the user if it is missing. The directories made remain when
that fails. -/
def ensureUserFile (tree : FileTree) (directory : Path) : Except ConfigError Unit × FileTree :=
  match FileTree.makeDirectories directory tree with
  | (false, tree) => (.error .fileSystem, tree)
  | (true, tree) =>
    let file := directory.append [fileName]
    if tree.contains file then (.ok (), tree)
    else
      match tree.write? file initialText with
      | some tree => (.ok (), tree)
      | none => (.error .uncreatable, tree)

/-- The configuration file of a project: that of the first directory upwards that has one. -/
def projectFile? (tree : FileTree) (start : Path) : Option Path :=
  (start.ancestors.map (·.append [projectDirectory, fileName])).find? tree.contains

/-! ### Layers -/

namespace Reader

/-- Puts the text of a layer on top of a configuration. -/
def addLayer (reader : Reader) (config : Config) (text : String) : Except ConfigError Config :=
  match reader.overlay? text with
  | some overlay => .ok (overlay.apply config)
  | none => .error .unreadable

/-- Reads a configuration from a text. -/
def ofText (reader : Reader) (text : String) : Except ConfigError Config := do
  (← reader.addLayer standard text).validated

/-- Puts a file on top of a configuration. A file without content changes nothing. -/
def addFile (reader : Reader) (tree : FileTree) (config : Config) (path : Path) :
    Except ConfigError Config :=
  match tree.read? path with
  | none => .error .fileSystem
  | some text => if hasContent text then reader.addLayer config text else .ok config

/-- Puts files on top of the standard configuration, the last one on top. -/
def ofFiles (reader : Reader) (tree : FileTree) (paths : List Path) :
    Except ConfigError Config := do
  (← paths.foldlM (reader.addFile tree) standard).validated

/-- Loads a single file. -/
def loadFile (reader : Reader) (tree : FileTree) (path : Path) : Except ConfigError Config :=
  if tree.contains path then reader.ofFiles tree [path] else .error .notFound

/-- Loads the files of the user and of the project. The result comes with the tree afterwards. -/
def load (reader : Reader) (tree : FileTree) (directory : Path) (project : Option Path) :
    Except ConfigError Config × FileTree :=
  match ensureUserFile tree directory with
  | (.error e, tree) => (.error e, tree)
  | (.ok (), tree) =>
    let layers := [directory.append [fileName]] ++ (project >>= projectFile? tree).toList
    (reader.ofFiles tree layers, tree)

end Reader

end Config

end DebugLink
