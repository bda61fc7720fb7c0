import DebugLink.Variable.Table
import DebugLink.Watch.Basic
import DebugLink.Watch.Printed

/-!
Decoding watches. Decoding reads the values that are stored in a table of variable objects and
nothing else.
-/

set_option autoImplicit false

namespace DebugLink

/-- Reads a printed value, which is kept as it is where the reader fails. -/
def Native.read (value : Option String) (reader : String → Option Native) : Native :=
  match value with
  | some printed => (reader printed).getD (.raw printed)
  | none => .unavailable

namespace VariableTable

/-- The value of an object, if it is known. -/
def value? (table : VariableTable) (name : String) : Option String :=
  table.get? name >>= Variable.value

/-- The count that an object holds. A count that is missing, unreadable or negative is zero. -/
def countOf (table : VariableTable) (name : String) : Nat :=
  match table.value? name >>= Printed.int? with
  | some n => n.toInt.toNat
  | none => 0

end VariableTable

/-- A number, signed if it fits. -/
def Printed.number? (value : String) : Option Native :=
  (Printed.int? value).map Native.int <|> (Printed.uint? value).map Native.uint

/-- The string that an object of characters holds. -/
def Native.ofChars (value : Option String) : Native :=
  Native.read value fun printed ↦ (Printed.quoted? printed).map Native.text

namespace Watch

mutual

/-- The value of a watch. It is unavailable unless its own object is known and in scope. -/
def decode (table : VariableTable) : Watch → Native
  | ⟨var, _, decoder⟩ =>
    match table.get? var with
    | none => .unavailable
    | some v => if v.inScope then decodeWith table v.value decoder else .unavailable

/-- The value that a decoder makes of a printed value and of the objects that it reads. -/
def decodeWith (table : VariableTable) (value : Option String) : Decoder → Native
  | .int => Native.read value Printed.number?
  | .char => Native.read value fun printed ↦ (Printed.char? printed).map Native.char
  | .cString => Native.ofChars value
  | .str chars => Native.ofChars (table.value? chars)
  | .pair first second => .pair (decode table first) (decode table second)
  | .vector length _ elements => .list ((decodeAll table elements).take (table.countOf length))
  | .map _ _ nodes => .map (decodeNodes table nodes)
  | .pointer pointee => Native.read value fun printed ↦ Printed.pointer? printed pointee
  | .raw => Native.read value fun _ ↦ none

/-- The values of the elements of a vector. -/
def decodeAll (table : VariableTable) : List Watch → List Native
  | [] => []
  | element :: rest => decode table element :: decodeAll table rest

/-- The entries of a map. -/
def decodeNodes (table : VariableTable) : List MapNode → List (Native × Native)
  | [] => []
  | ⟨_, key, value⟩ :: rest => (decode table key, decode table value) :: decodeNodes table rest

end

end Watch

end DebugLink
