import DebugLink.Session.Basic
import DebugLink.Text.Whitespace

/-!
The configuration of the program, and which configurations it can work with.
-/

set_option autoImplicit false

namespace DebugLink

/-- How much is written to the log. -/
inductive LogLevel
  | trace | debug | info | warn | error
  deriving DecidableEq, Repr

namespace LogLevel

def name : LogLevel → String
  | trace => "trace"
  | debug => "debug"
  | info => "info"
  | warn => "warn"
  | error => "error"

/-- The level of a name. -/
def ofName? (s : String) : Option LogLevel :=
  [trace, debug, info, warn, error].find? (·.name = s)

end LogLevel

/-- What can be configured. -/
inductive Setting
  | program | arguments | useTerminal
  | timeout | firstToken | autoUpdate
  | maxElements
  | logLevel | logFile
  deriving DecidableEq, Repr

namespace Setting

/-- The sections of a configuration file, in order. -/
def sections : List String :=
  ["debugger", "session", "watch", "log"]

/-- The section of a setting. -/
def group : Setting → String
  | program | arguments | useTerminal => "debugger"
  | timeout | firstToken | autoUpdate => "session"
  | maxElements => "watch"
  | logLevel | logFile => "log"

/-- The name of a setting within its section. -/
def key : Setting → String
  | program => "program"
  | arguments => "args"
  | useTerminal => "use_tty"
  | timeout => "command_timeout_ms"
  | firstToken => "first_token"
  | autoUpdate => "auto_update_vars"
  | maxElements => "max_container_elements"
  | logLevel => "level"
  | logFile => "file"

/-- The full name of a setting. -/
def name (setting : Setting) : String :=
  setting.group ++ "." ++ setting.key

/-- All settings, in the order of the sections. -/
def all : List Setting :=
  [program, arguments, useTerminal, timeout, firstToken, autoUpdate, maxElements, logLevel, logFile]

/-- The keys of a section, in order. -/
def keysOf (name : String) : List String :=
  (all.filter (·.group = name)).map key

end Setting

/-- A configuration. -/
structure Config where
  /-- The debugger to start. -/
  program : String
  /-- What the debugger is given besides what it needs here. -/
  arguments : List String
  /-- Whether the program being debugged gets a terminal of its own. -/
  useTerminal : Bool
  /-- How long to wait for an answer, in milliseconds. -/
  timeout : Nat
  /-- The token of the first command. -/
  firstToken : Token
  /-- Whether variable objects are updated after every stop. -/
  autoUpdate : Bool
  /-- The most elements of a container that a watch looks at. -/
  maxElements : Nat
  logLevel : LogLevel
  /-- The log file, unless it is the one of the platform. -/
  logFile : Option String
  deriving DecidableEq, Repr

/-- A setting that has a value it must not have. -/
structure Violation where
  setting : Setting
  detail : String
  deriving DecidableEq, Repr

/-- What is wrong with a setting, in words. -/
def Violation.message (v : Violation) : String :=
  "validation error: " ++ v.setting.name ++ ": " ++ v.detail

namespace Config

/-- The configuration for which nothing is said. -/
def standard : Config :=
  { program := "gdb"
    arguments := []
    useTerminal := true
    timeout := SessionOptions.standard.timeout
    firstToken := SessionOptions.standard.firstToken
    autoUpdate := SessionOptions.standard.autoUpdate
    maxElements := SessionOptions.standard.maxElements
    logLevel := .info
    logFile := none }

/-- The largest limit for the elements of a container. -/
def elementLimit : Nat := 100000

/-- Everything that is wrong with a configuration. -/
def violations (config : Config) : List Violation :=
  (if Text.isBlank config.program then [⟨.program, "must not be empty"⟩] else []) ++
    (if config.timeout = 0 then [⟨.timeout, "must be greater than 0"⟩] else []) ++
    (if config.maxElements = 0 ∨ elementLimit < config.maxElements then
      [⟨.maxElements,
        "must be 1-" ++ toString elementLimit ++ ", got " ++ toString config.maxElements⟩]
    else [])

/-- The options of a session under a configuration. -/
def sessionOptions (config : Config) : SessionOptions :=
  ⟨config.timeout, config.firstToken, config.autoUpdate, config.maxElements⟩

/-- What the debugger is called with; `terminal` is that of the program being debugged. -/
def debuggerArguments (config : Config) (terminal : Option String) : List String :=
  config.arguments ++ (terminal.map ("--tty=" ++ ·)).toList ++ ["--interpreter=mi"]

end Config

end DebugLink
