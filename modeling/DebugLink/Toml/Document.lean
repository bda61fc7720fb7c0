import DebugLink.Table.Named

/-!
TOML documents: nested tables of values, and how the lines of a document build them up. A table is
made by a header, by a header below it, or by a dotted key, and that decides what may still be
added: no header opens a table twice, no dotted key reaches into a table that has a header, and what
is written as a value is complete.
-/

set_option autoImplicit false

namespace DebugLink.Toml

/-- How a table came to be. -/
inductive Origin
  /-- By its own header. -/
  | header
  /-- By the header of something in it. -/
  | parent
  /-- By a dotted key. -/
  | dotted
  deriving DecidableEq, Repr

/-- A part of a document. -/
inductive Node
  | text (s : String)
  | integer (n : Int)
  /-- A floating-point number as written. -/
  | decimal (s : String)
  | boolean (b : Bool)
  /-- A date, a time or both, as written. -/
  | moment (s : String)
  | array (items : List Node)
  /-- A table written as a value. -/
  | inline (entries : NamedTable Node)
  | table (origin : Origin) (entries : NamedTable Node)
  /-- Tables of one name, each with a header of its own, the first one first. -/
  | tables (elements : List (NamedTable Node))

instance : Inhabited Node :=
  ⟨.inline .empty⟩

namespace Node

/-- The entries of a table of any kind. -/
def entries? : Node → Option (NamedTable Node)
  | inline entries => some entries
  | table _ entries => some entries
  | _ => none

/-- The items of a list of any kind. -/
def items? : Node → Option (List Node)
  | array items => some items
  | tables elements => some (elements.map inline)
  | _ => none

/-- Whether a table or a list has nothing in it. -/
def isEmpty (node : Node) : Bool :=
  node.entries?.any (·.isEmpty) || node.items?.any (·.isEmpty)

end Node

/-- Whether a dotted key may go on in a table of this origin; `last` says whether only its last part
is left. -/
def Origin.takesDotted (last : Bool) : Origin → Bool
  | header => false
  | parent => !last
  | dotted => true

/-- Sets the value of a key that may be dotted. -/
def assign (value : Node) : List String → NamedTable Node → Option (NamedTable Node)
  | [], _ => none
  | [key], table => if table.contains key then none else some (table.insert key value)
  | key :: rest, table => do
    let node ←
      match table.get? key with
      | none => return table.insert key (.table .dotted (← assign value rest .empty))
      | some node => pure node
    match node with
    | .table origin inner =>
      if origin.takesDotted (rest.length = 1) then
        return table.insert key (.table origin (← assign value rest inner))
      else none
    | .tables elements =>
      if rest.length = 1 then none
      else
        let inner ← assign value rest (← elements.getLast?)
        return table.insert key (.tables (elements.dropLast ++ [inner]))
    | _ => none

/-- Changes the table at a path. Tables on the way are made if they are missing; of tables of one
name the last is meant. -/
def changeAt (change : NamedTable Node → Option (NamedTable Node)) :
    List String → NamedTable Node → Option (NamedTable Node)
  | [], table => change table
  | key :: rest, table =>
    match table.get? key with
    | none => do return table.insert key (.table .parent (← changeAt change rest .empty))
    | some (.table origin inner) => do
      return table.insert key (.table origin (← changeAt change rest inner))
    | some (.tables elements) => do
      let inner ← changeAt change rest (← elements.getLast?)
      return table.insert key (.tables (elements.dropLast ++ [inner]))
    | some _ => none

/-- Opens the table that a header names. It must be new, or made only by headers below it. -/
def openTable (key : String) (table : NamedTable Node) : Option (NamedTable Node) :=
  match table.get? key with
  | none => some (table.insert key (.table .header .empty))
  | some (.table .parent inner) => some (table.insert key (.table .header inner))
  | some _ => none

/-- Opens a further table of a name that only such tables have. -/
def openElement (key : String) (table : NamedTable Node) : Option (NamedTable Node) :=
  match table.get? key with
  | none => some (table.insert key (.tables [.empty]))
  | some (.tables elements) => some (table.insert key (.tables (elements ++ [.empty])))
  | some _ => none

/-- What a line of a document says. -/
inductive Line
  | blank
  /-- The header of a table. -/
  | header (path : List String)
  /-- The header of one of several tables of a name. -/
  | element (path : List String)
  | setting (path : List String) (value : Node)

/-- A document as far as it was read: its tables, and the path of the one that settings go to. -/
structure Document where
  root : NamedTable Node
  current : List String

namespace Document

/-- A document before its first line. -/
def empty : Document :=
  ⟨.empty, []⟩

/-- Takes in a line. -/
def add (document : Document) : Line → Option Document
  | .blank => some document
  | .header path => do
    let key ← path.getLast?
    return ⟨← changeAt (openTable key) path.dropLast document.root, path⟩
  | .element path => do
    let key ← path.getLast?
    return ⟨← changeAt (openElement key) path.dropLast document.root, path⟩
  | .setting path value => do
    return { document with root := ← changeAt (assign value path) document.current document.root }

/-- The table that lines build up, if they agree with each other. -/
def ofLines? (lines : List Line) : Option (NamedTable Node) :=
  (lines.foldlM add empty).map root

end Document

/-- The table that settings between braces build up, if they agree with each other. -/
def inlineOf? (settings : List (List String × Node)) : Option (NamedTable Node) :=
  settings.foldlM (fun table setting ↦ assign setting.2 setting.1 table) .empty

end DebugLink.Toml
