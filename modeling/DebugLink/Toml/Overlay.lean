import DebugLink.Config.Overlay
import DebugLink.Toml.Grammar

/-!
Reading overlays from TOML documents. A document with a section or a key that does not exist is
refused as a whole.
-/

set_option autoImplicit false

namespace DebugLink.Overlay

/-! ### Reading values -/

def textOf? : Toml.Node → Option String
  | .text s => some s
  | _ => none

def flagOf? : Toml.Node → Option Bool
  | .boolean b => some b
  | _ => none

def countOf? : Toml.Node → Option Nat
  | .integer (.ofNat n) => some n
  | _ => none

def textsOf? (node : Toml.Node) : Option (List String) := do
  (← node.items?).mapM textOf?

/-- A level by its name, or by the only key of a table with nothing under it. -/
def levelOf? : Toml.Node → Option LogLevel
  | .text s => LogLevel.ofName? s
  | node => do
    match (← node.entries?).entries with
    | [(key, value)] => if value.isEmpty then LogLevel.ofName? key else none
    | _ => none

/-! ### Reading sections -/

/-- The values of a section by its keys: a table that has no other keys, or a list that has a value
for each key, in order. -/
def valuesOf? (keys : List String) (node : Toml.Node) : Option (String → Option Toml.Node) :=
  match node.entries?, node.items? with
  | some entries, _ => if entries.names.all keys.contains then some entries.get? else none
  | none, some items =>
    if keys.length ≤ items.length then some fun key ↦ (keys.zip items).lookup key else none
  | none, none => none

/-- The value of a setting, read from its section if it is there. -/
def read? {α : Type} (root : NamedTable Toml.Node) (setting : Setting)
    (read : Toml.Node → Option α) : Option (Option α) :=
  match root.get? setting.group with
  | none => some none
  | some node => do
    match (← valuesOf? (Setting.keysOf setting.group) node) setting.key with
    | none => some none
    | some value => return some (← read value)

/-- The overlay that a document holds, if all of the document belongs to it. -/
def ofDocument? (root : NamedTable Toml.Node) : Option Overlay :=
  if root.names.all Setting.sections.contains then do
    return {
      program := ← read? root .program textOf?
      arguments := ← read? root .arguments textsOf?
      useTerminal := ← read? root .useTerminal flagOf?
      timeout := ← read? root .timeout countOf?
      firstToken := ← read? root .firstToken fun node ↦ (countOf? node).map UInt64.ofNat
      autoUpdate := ← read? root .autoUpdate flagOf?
      maxElements := ← read? root .maxElements countOf?
      logLevel := ← read? root .logLevel levelOf?
      logFile := ← read? root .logFile textOf? }
  else none

/-- Reads an overlay. -/
def parse? (text : String) : Option Overlay :=
  Toml.parse? text >>= ofDocument?

end DebugLink.Overlay
