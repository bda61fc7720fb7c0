import DebugLink.Config.Basic

/-!
Overlays: configurations of which any part may be missing. A configuration file holds an overlay,
and an overlay replaces what it holds in the configuration below it. Lists are replaced too, not
extended.
-/

set_option autoImplicit false

namespace DebugLink

/-- A configuration of which any part may be missing. -/
structure Overlay where
  program : Option String
  arguments : Option (List String)
  useTerminal : Option Bool
  timeout : Option Nat
  firstToken : Option Token
  autoUpdate : Option Bool
  maxElements : Option Nat
  logLevel : Option LogLevel
  logFile : Option String
  deriving DecidableEq, Repr

/-- A configuration that an overlay was put on top of. -/
structure Overlaid extends Config where
  /-- The names of the settings that were replaced, in order. -/
  names : List String
  deriving DecidableEq, Repr

/-- What an overlay was put on top of goes on as a configuration. -/
instance : Coe Overlaid Config :=
  ⟨Overlaid.toConfig⟩

namespace Overlay

/-- The overlay that holds nothing. -/
def empty : Overlay :=
  ⟨none, none, none, none, none, none, none, none, none⟩

/-- The settings that an overlay holds. -/
def settings (overlay : Overlay) : List Setting :=
  Setting.all.filter fun
    | .program => overlay.program.isSome
    | .arguments => overlay.arguments.isSome
    | .useTerminal => overlay.useTerminal.isSome
    | .timeout => overlay.timeout.isSome
    | .firstToken => overlay.firstToken.isSome
    | .autoUpdate => overlay.autoUpdate.isSome
    | .maxElements => overlay.maxElements.isSome
    | .logLevel => overlay.logLevel.isSome
    | .logFile => overlay.logFile.isSome

/-- Replaces a value if there is another one for it, and notes the name of the setting then. The
names noted so far are the state. -/
def replace {α : Type} (setting : Setting) (current : α) : Option α → StateM (List String) α
  | none => return current
  | some value => do
    modify (· ++ [setting.name])
    return value

/-- Replaces all that an overlay holds, one setting after the other. A log file can be replaced but
not taken away. -/
def replaceAll (overlay : Overlay) (config : Config) : StateM (List String) Config := do
  return {
    program := ← replace .program config.program overlay.program
    arguments := ← replace .arguments config.arguments overlay.arguments
    useTerminal := ← replace .useTerminal config.useTerminal overlay.useTerminal
    timeout := ← replace .timeout config.timeout overlay.timeout
    firstToken := ← replace .firstToken config.firstToken overlay.firstToken
    autoUpdate := ← replace .autoUpdate config.autoUpdate overlay.autoUpdate
    maxElements := ← replace .maxElements config.maxElements overlay.maxElements
    logLevel := ← replace .logLevel config.logLevel overlay.logLevel
    logFile := ← replace .logFile config.logFile (overlay.logFile.map some) }

/-- Puts an overlay on top of a configuration. -/
def apply (overlay : Overlay) (config : Config) : Overlaid :=
  let (config, names) := (overlay.replaceAll config).run []
  { config with names }

end Overlay

end DebugLink
