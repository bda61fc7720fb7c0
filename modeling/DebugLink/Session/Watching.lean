import DebugLink.Session.Objects
import DebugLink.Watch.Decode
import DebugLink.Watch.Expression
import DebugLink.Watch.Shape

/-!
Registering watches and keeping them up to date. A watch on a container needs further variable
objects, and those may need more in turn. Building a watch keeps account of the objects it creates,
so that they can be deleted again when it cannot be completed.

The entries of a map are found by walking its tree in order through the links between its nodes. The
memory of the target may be damaged, so no node is visited twice, the null address is never
followed, and the walk ends when it has as many entries as a watch looks at. A step that fails ends
the walk, and what was found before is kept.
-/

set_option autoImplicit false

namespace DebugLink

/-- Building a watch: a task that may fail and keeps account of the objects it creates, also when it
fails. -/
abbrev Build (α : Type) : Type := ExceptT SessionError (StateT (List String) Task) α

/-- What a walk through a tree has found: the objects of the links that it followed, the nodes in
order, and all objects that it created. -/
structure Walk where
  links : List String
  nodes : List MapNode
  created : List String

/-- Walking through a tree. -/
abbrev Walking (α : Type) : Type := ExceptT SessionError (StateT Walk Task) α

namespace Session

/-! ### Building -/

/-- An operation as a part of building; it creates no objects that are to be accounted for. -/
def inBuild {α : Type} (operation : Operation α) : Build α :=
  ExceptT.mk (StateT.lift operation.run)

/-- Creates an object that is accounted for. -/
def createTracked (expression : String) : Build Variable := do
  let v ← inBuild (createObject expression)
  modify (· ++ [v.name])
  return v

/-- Deletes objects as far as possible, the last one first. -/
def discardAll (names : List String) : Task Unit :=
  names.reverse.forM discardObject

/-- A part of building as a part of a walk. -/
def inWalk {α : Type} (build : Build α) : Walking α :=
  ExceptT.mk fun walk ↦ do
    let (result, created) ← build.run.run walk.created
    return (result, { walk with created })

/-- How a watch is built for an object with the given full expression. -/
abbrev Builder : Type := Variable → String → Build Watch

/-- Creates an object for an expression and builds a watch for it. -/
def buildFrom (builder : Builder) (expression : String) : Build Watch := do
  let v ← createTracked expression
  builder v expression

/-- The number of elements that a printed length stands for, up to a limit. -/
def elementCount (limit : Nat) (value : Option String) : Nat :=
  match value >>= Printed.int? with
  | some n => min n.toInt.toNat limit
  | none => 0

/-- The position of a child of an array; children without one come last. -/
def childIndex (child : Variable) : Nat :=
  (Numeral.unsigned? 10 UInt64.size child.expression.toList).getD (UInt64.size - 1)

/-- Builds watches for the elements of a vector. -/
def buildElements (builder : Builder) (expression : String) : List Variable → Build (List Watch)
  | [] => return []
  | child :: rest => do
    let path := child.pathExpression.getD
      (Expression.grouped expression ++ "._M_impl._M_start[" ++ child.expression ++ "]")
    let element ← builder child path
    let elements ← buildElements builder expression rest
    return element :: elements

/-- Builds the decoder of a vector. -/
def buildVector (builder : Builder) (limit : Nat) (expression : String) : Build Decoder := do
  let length ← createTracked (Expression.vectorLength expression)
  let count := elementCount limit length.value
  if count = 0 then return .vector length.name none []
  else
    let array ← createTracked (Expression.vectorArray expression count)
    let children ← inBuild (listChildren array.name)
    let sorted := children.mergeSort fun a b ↦ childIndex a ≤ childIndex b
    return .vector length.name (some array.name) (← buildElements builder expression sorted)

/-! ### Walking through the tree of a map -/

/-- Creates an object for a link and reads the address that it holds. -/
def followLink (expression : String) : Walking (Option Address) := do
  let link ← inWalk (createTracked expression)
  modify fun walk ↦ { walk with links := walk.links ++ [link.name] }
  return link.value >>= Printed.address?

/-- The number of addresses there are, and so the most that a descent can pass. -/
def addressCount : Nat := UInt64.size

/-- Goes down to the left from a node, as long as there is a node that was not visited before. The
result is the nodes on the way that are still to be listed, the lowest one first, and all nodes
visited. -/
def descend : Nat → Option Address → List Address → List Address →
    Walking (List Address × List Address)
  | _, none, stack, visited => return (stack, visited)
  | 0, some _, _, _ => ExceptT.lift (StateT.lift Task.endless)
  | fuel + 1, some address, stack, visited => do
    if address = 0 ∨ visited.contains address then return (stack, visited)
    else
      let left ← followLink (Expression.treeChild address Expression.Side.left.text)
      descend fuel left (address :: stack) (address :: visited)

/-- Lists up to a number of nodes in order, beginning below a link. -/
def listNodes (builder : Builder) (key value : TypeName) :
    Nat → Option Address → List Address → List Address → Walking Unit
  | 0, _, _, _ => return ()
  | count + 1, current, stack, visited => do
    match ← descend (addressCount + 1) current stack visited with
    | ([], _) => return ()
    | (address :: stack, visited) =>
      let first ← inWalk (buildFrom builder (Expression.mapNodeMember address key value "first"))
      let second ← inWalk (buildFrom builder (Expression.mapNodeMember address key value "second"))
      modify fun walk ↦ { walk with nodes := walk.nodes ++ [⟨address, first, second⟩] }
      let right ← followLink (Expression.treeChild address Expression.Side.right.text)
      listNodes builder key value count right stack visited

/-- Walks through the tree of a map. -/
def walkTree (builder : Builder) (limit : Nat) (expression : String) (key value : TypeName) :
    Walking Unit := do
  let root ← followLink (Expression.mapRoot expression)
  listNodes builder key value limit root [] []

/-- Builds the decoder of a map. Objects that a failed step of the walk created and that the decoder
does not use are deleted. -/
def buildMap (builder : Builder) (limit : Nat) (expression : String) (key value : TypeName) :
    Build Decoder := do
  let count ← createTracked (Expression.mapCount expression)
  let (result, walk) ←
    ExceptT.lift (StateT.lift ((walkTree builder limit expression key value).run.run ⟨[], [], []⟩))
  let decoder := Decoder.map count.name walk.links walk.nodes
  match result with
  | .ok () =>
    modify (· ++ walk.created)
    return decoder
  | .error _ =>
    let kept := (Watch.mk "" "" decoder).derivedRoots
    let (used, orphans) := walk.created.partition kept.contains
    ExceptT.lift (StateT.lift (discardAll orphans))
    modify (· ++ used)
    return decoder

/-! ### Building a watch -/

/-- Builds a watch for an object. What decodes its value follows from its type, and containers need
watches for their parts; `depth` bounds how deep they nest. -/
def build (limit : Nat) : Nat → Builder
  | 0 => fun _ _ ↦ ExceptT.lift (StateT.lift Task.endless)
  | depth + 1 => fun v expression ↦ do
    let parts := build limit depth
    let decoder ←
      match (v.type.map Shape.classify).getD .raw with
      | .int => pure .int
      | .char => pure .char
      | .cString => pure .cString
      | .raw => pure .raw
      | .pointer pointee => pure (.pointer pointee)
      | .str => do
        let chars ← createTracked (Expression.stringChars expression)
        pure (.str chars.name)
      | .pair => do
        let first ← buildFrom parts (Expression.pairMember expression "first")
        let second ← buildFrom parts (Expression.pairMember expression "second")
        pure (.pair first second)
      | .vector => buildVector parts limit expression
      | .map key value => buildMap parts limit expression key value
    return ⟨v.name, expression, decoder⟩

/-- How deep containers may nest. The name of a type that nests deeper fits into no memory. -/
def nestingLimit : Nat := UInt64.size

/-! ### Watches -/

/-- The value of a watch, decoded from the values at hand. -/
def watchValue? (s : Session) (id : Nat) : Option Native :=
  (s.watches.get? id).map (Watch.decode s.objects)

/-- The watches with their expressions. -/
def watchList (s : Session) : List (Nat × String) :=
  s.watches.watches.entries.map fun entry ↦ (entry.1, entry.2.expression)

/-- Registers a watch under the next number and reports its value. -/
def registerWatch (s : Session) (watch : Watch) : Nat × Session :=
  let id := s.nextWatch
  let value := watch.decode s.objects
  let s := { s with nextWatch := id + 1, watches := (s.watches.insert id watch).2 }
  (id, s.emit (.watchDecoded id value))

/-- Builds a watch on an expression and registers it; the result is its number. When that fails,
the objects created for it are deleted. -/
def addWatch (depth : Nat) (expression : String) : Operation Nat := do
  let limit ← Operation.query (·.options.maxElements)
  let (result, created) ←
    Operation.lift ((buildFrom (build limit depth) expression).run.run [])
  match result with
  | .ok watch => Operation.lift (Task.step (·.registerWatch watch))
  | .error e =>
    Operation.lift (discardAll created)
    throw e

/-- Deletes objects one after the other; the result is the first error. -/
def deleteObjects : List String → Task (Option SessionError)
  | [] => return none
  | name :: rest => do
    let result ← (deleteObject name).run
    let later ← deleteObjects rest
    match result with
    | .ok _ => return later
    | .error e => return some e

/-- Removes a watch and deletes every object created for it. The result says whether it was
known. -/
def removeWatch (id : Nat) : Operation Bool := do
  let removed ← Operation.lift (Task.step fun s ↦
    let (watch, watches) := s.watches.remove id
    (watch, { s with watches }))
  match removed with
  | none => return false
  | some watch =>
    match ← Operation.lift (deleteObjects (watch.var :: watch.derivedRoots)) with
    | some e => throw e
    | none => return true

/-- Deletes the derived objects of a watch and builds it again. -/
def rebuildWatch (depth : Nat) (id : Nat) : Operation Unit := do
  let registered ← Operation.query (·.watches.get? id)
  match registered with
  | none => return ()
  | some old =>
    let _ ← Operation.lift (deleteObjects old.derivedRoots)
    let (limit, object) ← Operation.query fun s ↦ (s.options.maxElements, s.objects.get? old.var)
    match object with
    | none => throw (.unknownVariable old.var)
    | some v =>
      let (result, created) ← Operation.lift ((build limit depth v old.expression).run.run [])
      match result with
      | .ok watch =>
        Operation.update fun s ↦ { s with watches := (s.watches.insert id watch).2 }
      | .error e =>
        Operation.lift (discardAll created)
        throw e

/-- Reports the value of a watch, if it is still registered. -/
def reportWatch (s : Session) (id : Nat) : Session :=
  match s.watchValue? id with
  | some value => s.emit (.watchDecoded id value)
  | none => s

/-- Rebuilds the watches whose structure depends on changed objects, and reports the value of every
watch that reads one of them. -/
def refreshWatches (depth : Nat) (changed : List String) : Task Unit := do
  let (restructured, affected) ← Task.query fun s ↦
    (s.watches.restructuredBy changed, s.watches.affectedBy changed)
  restructured.forM fun id ↦ do
    let _ ← (rebuildWatch depth id).run
  let added := restructured.filter fun id ↦ !affected.contains id
  Task.update fun s ↦ ((affected ++ added).mergeSort (· ≤ ·)).foldl reportWatch s

/-- Updates all variable objects, and with them the watches. The result is the objects that
changed. -/
def updateObjects (depth : Nat) : Operation (List Variable) := do
  let response ← Operation.request (.varUpdate none .allValues)
  let updated ← Operation.lift (Task.step (·.recordChanges (response.fields.tuples "changelist")))
  if updated.isEmpty then return updated
  else
    Operation.lift (refreshWatches depth (updated.map Variable.name))
    return updated

end Session

end DebugLink
