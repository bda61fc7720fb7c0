import DebugLink.Error
import DebugLink.Text.Numeral
import DebugLink.Text.Whitespace

/-!
Variable objects: the debugger's handles on values. Names are hierarchical: `var1` is a root, and
`var1.public.x` is a descendant of it.
-/

set_option autoImplicit false

namespace DebugLink

/-- What is known about a variable object. -/
structure Variable where
  name : String
  /-- The expression of the object; for a child, its expression within the parent. -/
  expression : String
  type : Option String
  /-- The value that the debugger last printed. -/
  value : Option String
  /-- The number of children, in 32 bits. -/
  childCount : Nat
  inScope : Bool
  /-- The names of the children in the debugger's order, once they are listed. -/
  children : Option (List String)
  /-- The full expression of a child, once it is fetched. -/
  pathExpression : Option String
  deriving DecidableEq, Repr

namespace Variable

/-- The first component of a name. -/
def rootOf (name : String) : String :=
  String.ofList (name.toList.takeWhile (· ≠ '.'))

def root (v : Variable) : String :=
  rootOf v.name

/-- Whether a name has no parent. -/
def isRootName (name : String) : Bool :=
  !name.toList.contains '.'

/-- Whether a name lies below another one. -/
def isBelow (ancestor name : String) : Bool :=
  (ancestor ++ ".").toList.isPrefixOf name.toList

/-- Everything before the last dot of a name. -/
def parentName? (name : String) : Option String :=
  match name.toList.reverse.dropWhile (· ≠ '.') with
  | [] => none
  | _ :: before => some (String.ofList before.reverse)

/-- The number of children that fields give, or zero. -/
def childCountOf (fields : Fields) : Nat :=
  ((fields.text? "numchild") >>= Numeral.word32?).getD 0

/-- The object that the answer to a creation describes. -/
def ofCreate (expression : String) (fields : Fields) : Except SessionError Variable :=
  match fields.text? "name" with
  | none => .error (.invalidResponse .createdName)
  | some name =>
    .ok
      { name
        expression
        type := fields.text? "type"
        value := fields.text? "value"
        childCount := childCountOf fields
        inScope := true
        children := none
        pathExpression := none }

/-- The object that one entry of a listing of children describes. -/
def ofChild? (fields : Fields) : Option Variable :=
  (fields.text? "name").map fun name ↦
    { name
      expression := (fields.text? "exp").getD name
      type := fields.text? "type"
      value := fields.text? "value"
      childCount := childCountOf fields
      inScope := true
      children := none
      pathExpression := none }

end Variable

end DebugLink
