import DebugLink.Breakpoint.Basic
import DebugLink.Table.Named
import DebugLink.Table.Numbered

/-!
The breakpoints that the client knows of, by number, with an index from files to lines. A breakpoint
is in the index once under each name of its file, if it has a line.
-/

set_option autoImplicit false

namespace DebugLink

/-- Breakpoints by number, and for each file the lines and numbers of the breakpoints in it. -/
structure BreakpointTable where
  byNumber : NumberedTable Breakpoint
  byFile : NamedTable (List (Nat × Nat))
  deriving Repr

namespace BreakpointTable

/-- No breakpoints. -/
def empty : BreakpointTable :=
  ⟨NumberedTable.empty, NamedTable.empty⟩

/-- Adds a line and a number to the index of a file. -/
def index (line number : Nat) (byFile : NamedTable (List (Nat × Nat))) (file : String) :
    NamedTable (List (Nat × Nat)) :=
  byFile.insert file ((byFile.get? file).getD [] ++ [(line, number)])

/-- Takes a number out of the index of a file; a file without lines is not kept. -/
def unindex (number : Nat) (byFile : NamedTable (List (Nat × Nat))) (file : String) :
    NamedTable (List (Nat × Nat)) :=
  match byFile.get? file with
  | none => byFile
  | some places =>
    let places := places.filter fun place ↦ place.2 ≠ number
    if places.isEmpty then byFile.erase file else byFile.insert file places

def get? (table : BreakpointTable) (number : Nat) : Option Breakpoint :=
  table.byNumber.get? number

/-- Removes a breakpoint; the result is what was removed. -/
def remove (table : BreakpointTable) (number : Nat) : Option Breakpoint × BreakpointTable :=
  match table.get? number with
  | none => (none, table)
  | some b => (some b, ⟨table.byNumber.erase number, b.files.foldl (unindex number) table.byFile⟩)

/-- Stores a breakpoint under its number; the result is the one that was there before. -/
def insert (table : BreakpointTable) (b : Breakpoint) : Option Breakpoint × BreakpointTable :=
  let (previous, table) := table.remove b.number
  let byFile :=
    match b.line with
    | some line => b.files.foldl (index line b.number) table.byFile
    | none => table.byFile
  (previous, ⟨table.byNumber.insert b.number b, byFile⟩)

/-- Whether there is a breakpoint on a line of a file, which may be named either way. -/
def isBreakpoint (table : BreakpointTable) (file : String) (line : Nat) : Bool :=
  ((table.byFile.get? file).getD []).any fun place ↦ place.1 = line

/-- The lines of a file that have breakpoints, in increasing order. -/
def linesIn (table : BreakpointTable) (file : String) : List Nat :=
  ((((table.byFile.get? file).getD []).map Prod.fst).mergeSort (· ≤ ·)).eraseReps

/-- Changes a breakpoint without moving it; the result says whether it is known. -/
def modify (table : BreakpointTable) (number : Nat) (f : Breakpoint → Breakpoint) :
    Bool × BreakpointTable :=
  (table.byNumber.contains number, { table with byNumber := table.byNumber.modify number f })

def setEnabled (table : BreakpointTable) (number : Nat) (enabled : Bool) :
    Bool × BreakpointTable :=
  table.modify number fun b ↦ { b with enabled }

def setCondition (table : BreakpointTable) (number : Nat) (condition : Option String) :
    Bool × BreakpointTable :=
  table.modify number fun b ↦ { b with condition }

/-- All breakpoints in the order of their numbers. -/
def toList (table : BreakpointTable) : List Breakpoint :=
  table.byNumber.values

def size (table : BreakpointTable) : Nat :=
  table.byNumber.size

def isEmpty (table : BreakpointTable) : Bool :=
  table.byNumber.isEmpty

end BreakpointTable

end DebugLink
