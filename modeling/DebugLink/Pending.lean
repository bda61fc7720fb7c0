import DebugLink.Error

/-!
The commands that have not been answered yet, by token, and who wants to know the answer. An entry
is removed once: by the first response, by an error, or when the one who waits gives up.
-/

set_option autoImplicit false

namespace DebugLink

/-- The debugger's answer to a command, errors apart. -/
structure Response where
  token : Token
  /-- The class of the record, such as `done`, `running` or `stopped`. -/
  cls : String
  fields : Fields

/-- Who wants to know the answer to a command. -/
inductive Handler
  /-- A function to be called with the response. -/
  | callback
  /-- A caller that waits; the ticket tells it from others. -/
  | waiter (ticket : Nat)
  deriving DecidableEq, Repr

/-- Handlers by token; no token stands twice. -/
structure PendingTable where
  handlers : List (Token × Handler)
  deriving Repr

namespace PendingTable

/-- No handlers. -/
def empty : PendingTable :=
  ⟨[]⟩

def get? (table : PendingTable) (token : Token) : Option Handler :=
  table.handlers.lookup token

def contains (table : PendingTable) (token : Token) : Bool :=
  (table.get? token).isSome

/-- Removes the handler of a token; the result is what was removed. -/
def take (table : PendingTable) (token : Token) : Option Handler × PendingTable :=
  (table.get? token, ⟨table.handlers.filter fun entry ↦ entry.1 ≠ token⟩)

/-- Stores the handler of a token; the result is the one that it displaces. -/
def register (table : PendingTable) (token : Token) (handler : Handler) :
    Option Handler × PendingTable :=
  let (displaced, table) := table.take token
  (displaced, ⟨table.handlers ++ [(token, handler)]⟩)

/-- Removes the handler of a token; the result says whether there was one. -/
def cancel (table : PendingTable) (token : Token) : Bool × PendingTable :=
  (table.contains token, (table.take token).2)

/-- Removes all handlers; the result is the tickets of those who waited. -/
def failAll (table : PendingTable) : List Nat × PendingTable :=
  (table.handlers.filterMap fun
    | (_, .waiter ticket) => some ticket
    | (_, .callback) => none, empty)

/-- The number of commands without an answer. -/
def size (table : PendingTable) : Nat :=
  table.handlers.length

/-- Whether someone still waits under a ticket. -/
def isWaiting (table : PendingTable) (ticket : Nat) : Bool :=
  table.handlers.any fun entry ↦ entry.2 = .waiter ticket

end PendingTable

end DebugLink
