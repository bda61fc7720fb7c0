import DebugLink.TypeName.Basic
import DebugLink.Watch.Native

/-!
The expressions that reach into containers of the standard library. The base is the expression of
the container itself.
-/

set_option autoImplicit false

namespace DebugLink.Expression

/-- An expression in parentheses. -/
def grouped (base : String) : String :=
  "(" ++ base ++ ")"

/-- The number of elements of a vector. -/
def vectorLength (base : String) : String :=
  grouped base ++ "._M_impl._M_finish - " ++ grouped base ++ "._M_impl._M_start"

/-- The first elements of a vector, as an array. -/
def vectorArray (base : String) (length : Nat) : String :=
  grouped base ++ "._M_impl._M_start[0]@" ++ toString length

/-- The characters of a string. -/
def stringChars (base : String) : String :=
  grouped base ++ "._M_dataplus._M_p"

/-- A member of a pair. -/
def pairMember (base member : String) : String :=
  grouped base ++ "." ++ member

/-- The number of entries of a map. -/
def mapCount (base : String) : String :=
  grouped base ++ "._M_t._M_impl._M_node_count"

/-- The root of the tree of a map. -/
def mapRoot (base : String) : String :=
  grouped base ++ "._M_t._M_impl._M_header._M_parent"

/-- The two children of a node of a tree. -/
inductive Side
  | left
  | right
  deriving DecidableEq, Repr

def Side.text : Side → String
  | left => "left"
  | right => "right"

/-- A child of a node of the tree of a map. -/
def treeChild (address : Address) (side : String) : String :=
  "((std::_Rb_tree_node_base *)" ++ Address.text address ++ ")->_M_" ++ side

/-- A member of the pair that a node of the tree of a map holds. -/
def mapNodeMember (address : Address) (key value : TypeName) (member : String) : String :=
  let payload := "std::pair<const " ++ key.text ++ ", " ++ value.text ++ ">"
  let node := "std::_Rb_tree_node<" ++ payload ++ " >"
  "(*(" ++ payload ++ " *)&((" ++ node ++ " *)" ++ Address.text address ++ ")->_M_storage)." ++
    member

end DebugLink.Expression
