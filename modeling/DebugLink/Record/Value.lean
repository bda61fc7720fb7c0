import DebugLink.Table.Named

/-!
The values that records of the machine interface carry: texts, tuples of named values, and lists,
whose items are either all bare or all named. In a tuple every name stands once.
-/

set_option autoImplicit false

namespace DebugLink

/-- A value of the machine interface. -/
inductive Value
  | text (s : String)
  | tuple (fields : NamedTable Value)
  /-- A list of bare values; also the empty list. -/
  | values (items : List Value)
  /-- A list of named values, where names may repeat. -/
  | results (items : List (String × Value))

instance : Inhabited Value :=
  ⟨.text ""⟩

namespace Value

def text? : Value → Option String
  | text s => some s
  | _ => none

def tuple? : Value → Option (NamedTable Value)
  | tuple fields => some fields
  | _ => none

/-- The items of a list in order, without their names. -/
def items? : Value → Option (List Value)
  | values items => some items
  | results items => some (items.map Prod.snd)
  | _ => none

end Value

/-- The named values of a tuple, or of a record. -/
abbrev Fields : Type := NamedTable Value

namespace Fields

/-- The text under a name, if there is one and it is a text. -/
def text? (fields : Fields) (name : String) : Option String :=
  fields.get? name >>= Value.text?

/-- The tuple under a name, if there is one and it is a tuple. -/
def tuple? (fields : Fields) (name : String) : Option Fields :=
  fields.get? name >>= Value.tuple?

/-- The items of the list under a name, if there is one and it is a list. -/
def items? (fields : Fields) (name : String) : Option (List Value) :=
  fields.get? name >>= Value.items?

/-- The tuples among the items of the list under a name; none if there is no such list. -/
def tuples (fields : Fields) (name : String) : List Fields :=
  ((fields.items? name).getD []).filterMap Value.tuple?

end Fields

end DebugLink
