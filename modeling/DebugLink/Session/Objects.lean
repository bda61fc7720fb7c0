import DebugLink.Session.Task

/-!
Operations on variable objects. Each keeps the table of the client in step with that of the
debugger.
-/

set_option autoImplicit false

namespace DebugLink.Session

/-- Changes the table of variable objects. -/
def changeVariables (s : Session) (f : VariableTable → VariableTable) : Session :=
  { s with objects := f s.objects }

/-- Asks for the value of an object. -/
def askValue (name : String) : Operation String := do
  let response ← Operation.request (.varEvaluateExpression name)
  Operation.textOf response "value" (.valueOf name)

/-- Deletes an object as far as possible; it is forgotten in any case. -/
def discardObject (name : String) : Task Unit := do
  let _ ← (Operation.request (.varDelete name)).run
  Task.update (·.changeVariables (·.removeTree name))

/-- Stores a new object. -/
def storeObject (v : Variable) : Operation Variable := do
  Operation.update fun s ↦ (s.changeVariables (·.insert v)).emit (.watchUpdated v)
  return v

/-- Creates an object for an expression. If its value cannot be had the object is deleted again. -/
def createObject (expression : String) : Operation Variable := do
  let response ← Operation.request (.varCreate none none expression)
  let v ← ExceptT.mk (pure (Variable.ofCreate expression response.fields))
  match v.value with
  | some _ => storeObject v
  | none =>
    match ← Operation.lift (askValue v.name).run with
    | .ok value => storeObject { v with value := some value }
    | .error e =>
      Operation.lift (discardObject v.name)
      throw e

/-- Fetches the value of an object. -/
def fetchValue (name : String) : Operation String := do
  let value ← askValue name
  Operation.update (·.changeVariables (·.modify name fun v ↦ { v with value := some value }))
  return value

/-- Fetches the full expression of an object. -/
def fetchPath (name : String) : Operation String := do
  let response ← Operation.request (.varInfoPathExpression name)
  let path ← Operation.textOf response "path_expr" (.pathOf name)
  Operation.update
    (·.changeVariables (·.modify name fun v ↦ { v with pathExpression := some path }))
  return path

/-- Records the value that an assignment had, and reports it if the object is known. -/
def recordAssignment (s : Session) (name value : String) : Session :=
  let s := s.changeVariables (·.modify name fun v ↦ { v with value := some value })
  match s.objects.get? name with
  | some v => s.emit (.watchUpdated v)
  | none => s

/-- Assigns a value; the result is the value that the debugger reports. -/
def assign (name expression : String) : Operation String := do
  let response ← Operation.request (.varAssign name expression)
  let value := (response.fields.text? "value").getD ""
  Operation.update (·.recordAssignment name value)
  return value

/-- Changes how a value is shown; the result is the value in the new format. -/
def setFormat (name : String) (format : DisplayFormat) : Operation String := do
  let response ← Operation.request (.varSetFormat name format)
  let value := (response.fields.text? "value").getD ""
  Operation.update (·.changeVariables (·.modify name fun v ↦ { v with value := some value }))
  return value

/-- Deletes an object and everything below it; the result is the names that are gone. -/
def deleteObject (name : String) : Operation (List String) := do
  let _ ← Operation.request (.varDelete name)
  Operation.lift (Task.step fun s ↦
    (s.objects.treeNames name, s.changeVariables (·.removeTree name)))

/-- Completes a child with its value, if it lacks one, and its full expression, as far as the
debugger gives them. -/
def completeChild (child : Variable) : Task Variable := do
  let child ←
    match child.value with
    | some _ => pure child
    | none =>
      match ← (askValue child.name).run with
      | .ok value => pure { child with value := some value }
      | .error _ => pure child
  match ← (Operation.request (.varInfoPathExpression child.name)).run with
  | .ok response => return { child with pathExpression := response.fields.text? "path_expr" }
  | .error _ => return child

/-- Completes children one after the other. -/
def completeChildren : List Variable → Task (List Variable)
  | [] => return []
  | child :: rest => do
    let child ← completeChild child
    let rest ← completeChildren rest
    return child :: rest

/-- Stores the children of an object. -/
def storeChildren (name : String) (children : List Variable) : Operation (List Variable) := do
  ExceptT.mk (Task.step fun s ↦
    match s.objects.setChildren name children with
    | .ok objects => (.ok (), { s with objects })
    | .error e => (.error e, s))
  return children

/-- Lists the children of an object, which replace those listed before. -/
def listChildren (name : String) : Operation (List Variable) := do
  let response ← Operation.request (.varListChildren name .allValues)
  let children := (response.fields.tuples "children").filterMap Variable.ofChild?
  storeChildren name (← Operation.lift (completeChildren children))

/-- Applies the entries of a change list in order; the result is the objects that changed, each as
it is right after its entry. -/
def applyChanges : List Fields → VariableTable → List Variable × VariableTable
  | [], table => ([], table)
  | change :: rest, table =>
    let (updated, table) := table.applyUpdate change
    let (others, table) := applyChanges rest table
    (updated.toList ++ others, table)

/-- The distinct roots of objects in the order of their first occurrence. -/
def distinctRoots (updated : List Variable) : List String :=
  updated.foldl (fun roots v ↦ if roots.contains v.root then roots else roots ++ [v.root]) []

/-- Applies a change list, and reports each changed object and each of their roots. -/
def recordChanges (s : Session) (changes : List Fields) : List Variable × Session :=
  let (updated, objects) := applyChanges changes s.objects
  (updated, emitAll { s with objects }
    (updated.map Event.watchUpdated ++ (distinctRoots updated).map Event.rootUpdated))

end DebugLink.Session
