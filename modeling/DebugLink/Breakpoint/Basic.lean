import DebugLink.Record.Basic
import DebugLink.Text.Numeral

/-!
Breakpoints as the debugger reports them.
-/

set_option autoImplicit false

namespace DebugLink

/-- A breakpoint. -/
structure Breakpoint where
  number : Nat
  /-- The source file as the debugger names it. -/
  file : Option String
  /-- The absolute path of the source file. -/
  fullname : Option String
  line : Option Nat
  function : Option String
  address : Option String
  condition : Option String
  enabled : Bool
  temporary : Bool
  hardware : Bool
  /-- How often it was hit. -/
  times : Nat
  deriving DecidableEq, Repr

namespace Breakpoint

/-- The breakpoint that a tuple describes. A row for one of several locations has a number with a
dot in it and describes none. File and line of a breakpoint with several locations come from the
first of them. -/
def ofFields? (fields : Fields) : Option Breakpoint := do
  let number ← fields.text? "number" >>= Numeral.word32?
  let location := (fields.tuples "locations").head?
  let source (name : String) : Option String := fields.text? name <|> location >>= (·.text? name)
  return {
    number
    file := source "file"
    fullname := source "fullname"
    line := source "line" >>= Numeral.word32?
    function := fields.text? "func"
    address := fields.text? "addr"
    condition := fields.text? "cond"
    enabled := fields.text? "enabled" ≠ some "n"
    temporary := fields.text? "disp" = some "del"
    hardware := ((fields.text? "type").map fun type ↦ ['h', 'w'].isPrefixOf type.toList).getD false
    times := (fields.text? "times" >>= Numeral.word32?).getD 0 }

/-- Whether the breakpoint stands for more than one address. -/
def hasSeveralLocations (b : Breakpoint) : Bool :=
  b.address = some "<MULTIPLE>"

/-- The file names under which the breakpoint can be looked up. -/
def files (b : Breakpoint) : List String :=
  b.file.toList ++ b.fullname.toList

end Breakpoint

end DebugLink
