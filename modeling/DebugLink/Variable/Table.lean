import DebugLink.Table.Named
import DebugLink.Variable.Basic

/-!
The variable objects that the client knows of, kept in step with the debugger: removing an object
removes what lies below it, and replacing the children of an object removes those that are gone.
-/

set_option autoImplicit false

namespace DebugLink

/-- Variable objects by name. -/
structure VariableTable where
  objects : NamedTable Variable
  deriving Repr

namespace VariableTable

/-- No objects. -/
def empty : VariableTable :=
  ⟨NamedTable.empty⟩

def get? (table : VariableTable) (name : String) : Option Variable :=
  table.objects.get? name

def contains (table : VariableTable) (name : String) : Bool :=
  table.objects.contains name

/-- Stores an object under its name. -/
def insert (table : VariableTable) (v : Variable) : VariableTable :=
  ⟨table.objects.insert v.name v⟩

/-- Changes the object of a name, if it is there. -/
def modify (table : VariableTable) (name : String) (f : Variable → Variable) : VariableTable :=
  ⟨table.objects.modify name f⟩

/-- The names of the objects, in increasing order. -/
def names (table : VariableTable) : List String :=
  table.objects.names.mergeSort fun a b ↦ decide (a ≤ b)

/-- The names that go when an object goes: its own and those below it, in increasing order. -/
def treeNames (table : VariableTable) (name : String) : List String :=
  table.names.filter fun key ↦ key = name || Variable.isBelow name key

/-- Drops a name from the list of children of its parent. -/
def dropChild (table : VariableTable) (name : String) : VariableTable :=
  match Variable.parentName? name with
  | none => table
  | some parent =>
    table.modify parent fun v ↦ { v with children := v.children.map (·.filter (· ≠ name)) }

/-- Removes an object and everything below it. -/
def removeTree (table : VariableTable) (name : String) : VariableTable :=
  dropChild ⟨table.objects.filterNames fun key ↦ !(key = name || Variable.isBelow name key)⟩ name

/-- Replaces the children of an object. Children that are no longer reported are removed together
with everything below them. -/
def setChildren (table : VariableTable) (parent : String) (children : List Variable) :
    Except SessionError VariableTable :=
  match table.get? parent with
  | none => .error (.unknownVariable parent)
  | some v =>
    let names := children.map Variable.name
    let stale := (v.children.getD []).filter fun name ↦ !names.contains name
    let table := children.foldl insert (stale.foldl removeTree table)
    .ok (table.modify parent fun v ↦
      { v with childCount := names.length % UInt32.size, children := some names })

/-- The child of an object with the given expression. -/
def childByExpression? (table : VariableTable) (parent expression : String) : Option Variable := do
  let names ← (← table.get? parent).children
  (names.filterMap table.get?).find? fun child ↦ child.expression = expression

/-- An object after an entry of a change list, before its children are dropped: the object, whether
it changed, and whether its children are out of date. -/
def changed (v : Variable) (change : Fields) : Variable × Bool × Bool :=
  let newValue := (change.text? "value").filter fun value ↦ v.value ≠ some value
  let newScope := ((change.text? "in_scope").map (· = "true" : String → Bool)).filter
    fun inScope ↦ v.inScope ≠ inScope
  let typeChanged := change.text? "type_changed" = some "true"
  let newCount := change.text? "new_num_children" >>= Numeral.word32?
  let v' :=
    { v with
      value := newValue <|> v.value
      inScope := newScope.getD v.inScope
      type := (if typeChanged then change.text? "new_type" else none) <|> v.type
      childCount := newCount.getD v.childCount }
  let reset := typeChanged || newCount.isSome
  (v', newValue.isSome || newScope.isSome || reset, reset)

/-- Applies one entry of a change list. The result is the object after the change, or none if
nothing about it changed or it is not known. A change of type or of the number of children removes
the children that were listed. -/
def applyUpdate (table : VariableTable) (change : Fields) : Option Variable × VariableTable :=
  match change.text? "name" with
  | none => (none, table)
  | some name =>
    match table.get? name with
    | none => (none, table)
    | some v =>
      let (v', isChanged, reset) := changed v change
      let stored := table.modify name fun _ ↦ v'
      let table' :=
        if reset then
          (v'.children.getD []).foldl removeTree
            (stored.modify name fun v ↦ { v with children := none })
        else stored
      (if isChanged then some ((table'.get? name).getD v') else none, table')

def size (table : VariableTable) : Nat :=
  table.objects.size

def isEmpty (table : VariableTable) : Bool :=
  table.objects.isEmpty

end VariableTable

end DebugLink
