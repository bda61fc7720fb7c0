/-!
Tables keyed by number, with the entries in increasing order of their numbers.
-/

set_option autoImplicit false

namespace DebugLink

/-- Numbered entries in increasing order. -/
structure NumberedTable (α : Type) where
  entries : List (Nat × α)
  deriving Repr

namespace NumberedTable

variable {α : Type}

/-- No entries. -/
def empty : NumberedTable α :=
  ⟨[]⟩

/-- Puts a value under a number among entries in increasing order. -/
def put (number : Nat) (value : α) : List (Nat × α) → List (Nat × α)
  | [] => [(number, value)]
  | entry :: rest =>
    if number < entry.1 then (number, value) :: entry :: rest
    else if entry.1 = number then (number, value) :: rest
    else entry :: put number value rest

/-- Sets the value of a number. -/
def insert (table : NumberedTable α) (number : Nat) (value : α) : NumberedTable α :=
  ⟨put number value table.entries⟩

/-- The value of a number. -/
def get? (table : NumberedTable α) (number : Nat) : Option α :=
  table.entries.lookup number

def contains (table : NumberedTable α) (number : Nat) : Bool :=
  (table.get? number).isSome

/-- Applies a function to the value of a number, if it is there. -/
def modify (table : NumberedTable α) (number : Nat) (f : α → α) : NumberedTable α :=
  ⟨table.entries.map fun entry ↦ if entry.1 = number then (entry.1, f entry.2) else entry⟩

/-- Removes the entry of a number. -/
def erase (table : NumberedTable α) (number : Nat) : NumberedTable α :=
  ⟨table.entries.filter fun entry ↦ entry.1 ≠ number⟩

def size (table : NumberedTable α) : Nat :=
  table.entries.length

def isEmpty (table : NumberedTable α) : Bool :=
  table.entries.isEmpty

/-- The numbers in use, in increasing order. -/
def numbers (table : NumberedTable α) : List Nat :=
  table.entries.map Prod.fst

/-- The values in the order of their numbers. -/
def values (table : NumberedTable α) : List α :=
  table.entries.map Prod.snd

end NumberedTable

end DebugLink
