import DebugLink.Record.Basic
import DebugLink.Text.Escaped

/-!
Native values: what a watch makes of the values that the debugger prints.
-/

set_option autoImplicit false

namespace DebugLink

/-- The number of a place in the target's memory. -/
abbrev Address : Type := UInt64

/-- A decoded value of the target. -/
inductive Native
  | int (n : Int64)
  /-- A number too large for a signed one. -/
  | uint (n : UInt64)
  | char (c : Char)
  | text (s : String)
  | pair (first second : Native)
  | list (items : List Native)
  | map (entries : List (Native × Native))
  | pointer (address : Address) (pointee : String)
  /-- The value as printed, not interpreted. -/
  | raw (s : String)
  /-- Out of scope, or not fetched yet. -/
  | unavailable

instance : Inhabited Native :=
  ⟨.unavailable⟩

/-- An address in base sixteen. -/
def Address.text (address : Address) : String :=
  "0x" ++ Numeral.hex address.toNat

namespace Native

mutual

/-- A value in words. -/
def describe : Native → String
  | int n => toString n.toInt
  | uint n => toString n.toNat
  | char c => Text.quotedChar c
  | text s => Text.quoted s
  | pair first second => "(" ++ first.describe ++ ", " ++ second.describe ++ ")"
  | list items => "[" ++ ", ".intercalate (describeAll items) ++ "]"
  | map entries => "\x7b" ++ ", ".intercalate (describeEntries entries) ++ "\x7d"
  | pointer address pointee => "(" ++ pointee ++ " *) " ++ Address.text address
  | raw s => s
  | unavailable => "<unavailable>"

/-- The items of a list in words. -/
def describeAll : List Native → List String
  | [] => []
  | item :: rest => item.describe :: describeAll rest

/-- The entries of a map in words. -/
def describeEntries : List (Native × Native) → List String
  | [] => []
  | (key, value) :: rest => (key.describe ++ ": " ++ value.describe) :: describeEntries rest

end

end Native

end DebugLink
