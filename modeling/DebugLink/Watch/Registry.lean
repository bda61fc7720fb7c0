import DebugLink.Table.Numbered
import DebugLink.Watch.Basic

/-!
The watches of a session by their numbers, and which of them a change concerns.
-/

set_option autoImplicit false

namespace DebugLink

/-- Watches by number. -/
structure WatchRegistry where
  watches : NumberedTable Watch

namespace WatchRegistry

/-- No watches. -/
def empty : WatchRegistry :=
  ⟨NumberedTable.empty⟩

def get? (registry : WatchRegistry) (id : Nat) : Option Watch :=
  registry.watches.get? id

/-- Stores a watch; the result is the one that was there before. -/
def insert (registry : WatchRegistry) (id : Nat) (watch : Watch) : Option Watch × WatchRegistry :=
  (registry.get? id, ⟨registry.watches.insert id watch⟩)

/-- Removes a watch; the result is what was removed. -/
def remove (registry : WatchRegistry) (id : Nat) : Option Watch × WatchRegistry :=
  (registry.get? id, ⟨registry.watches.erase id⟩)

/-- The numbers of the watches that have one of the given objects among some of theirs. -/
def idsReading (registry : WatchRegistry) (vars : Watch → List String) (changed : List String) :
    List Nat :=
  (registry.watches.entries.filter fun entry ↦ (vars entry.2).any changed.contains).map Prod.fst

/-- The watches that read one of the objects. -/
def affectedBy (registry : WatchRegistry) (changed : List String) : List Nat :=
  registry.idsReading Watch.vars changed

/-- The watches whose structure depends on one of the objects. -/
def restructuredBy (registry : WatchRegistry) (changed : List String) : List Nat :=
  registry.idsReading Watch.structuralVars changed

/-- The numbers in use, in increasing order. -/
def ids (registry : WatchRegistry) : List Nat :=
  registry.watches.numbers

def size (registry : WatchRegistry) : Nat :=
  registry.watches.size

def isEmpty (registry : WatchRegistry) : Bool :=
  registry.watches.isEmpty

end WatchRegistry

end DebugLink
