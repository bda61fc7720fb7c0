/-!
Tables keyed by name. The entries stand in the order in which their names were first inserted, and
no name stands twice: inserting under a name that is there replaces the value in place.
-/

set_option autoImplicit false

namespace DebugLink

/-- Named entries in order of first insertion. -/
structure NamedTable (α : Type) where
  entries : List (String × α)
  deriving Repr

namespace NamedTable

variable {α : Type}

/-- No entries. -/
def empty : NamedTable α :=
  ⟨[]⟩

instance : Inhabited (NamedTable α) :=
  ⟨empty⟩

/-- Replaces the value under a name where it stands, or appends the pair. -/
def put (name : String) (value : α) : List (String × α) → List (String × α)
  | [] => [(name, value)]
  | entry :: rest =>
    if entry.1 = name then (name, value) :: rest else entry :: put name value rest

/-- Sets the value of a name. A name that is already there keeps its place. -/
def insert (table : NamedTable α) (name : String) (value : α) : NamedTable α :=
  ⟨put name value table.entries⟩

/-- The table that results from inserting pairs one after the other. -/
def ofList (pairs : List (String × α)) : NamedTable α :=
  pairs.foldl (fun table pair ↦ table.insert pair.1 pair.2) empty

/-- The value of a name. -/
def get? (table : NamedTable α) (name : String) : Option α :=
  table.entries.lookup name

def contains (table : NamedTable α) (name : String) : Bool :=
  (table.get? name).isSome

/-- Applies a function to the value of a name, if it is there. -/
def modify (table : NamedTable α) (name : String) (f : α → α) : NamedTable α :=
  ⟨table.entries.map fun entry ↦ if entry.1 = name then (entry.1, f entry.2) else entry⟩

/-- Keeps the entries whose names pass a test. -/
def filterNames (table : NamedTable α) (keep : String → Bool) : NamedTable α :=
  ⟨table.entries.filter fun entry ↦ keep entry.1⟩

/-- Removes the entry of a name. -/
def erase (table : NamedTable α) (name : String) : NamedTable α :=
  table.filterNames (· ≠ name)

def size (table : NamedTable α) : Nat :=
  table.entries.length

def isEmpty (table : NamedTable α) : Bool :=
  table.entries.isEmpty

def names (table : NamedTable α) : List String :=
  table.entries.map Prod.fst

end NamedTable

end DebugLink
