import DebugLink.Command.Request

/-!
What a user can ask for at the console, and how a request can be malformed.
-/

set_option autoImplicit false

namespace DebugLink

/-- What a console line asks for. -/
inductive Action
  | setBreak (request : BreakRequest)
  | delete (numbers : List Nat)
  | enable (numbers : List Nat)
  | disable (numbers : List Nat)
  /-- Sets the condition of a breakpoint; an empty one clears it. -/
  | condition (number : Nat) (expression : String)
  | run
  | resume
  | step
  | next
  | stepInstruction
  | nextInstruction
  | runUntil (location : Option String)
  | finish
  | returnNow
  | interrupt
  | loadFile (path : String) (arguments : List String)
  | attach (process : Nat)
  | detach
  | selectFrame (level : Nat)
  /-- Evaluates an expression once. -/
  | evaluate (expression : String)
  | watch (expression : String)
  | unwatch (id : Nat)
  | listWatches
  /-- Sends a text to the debugger as it is. -/
  | send (text : String)
  /-- Writes a note to the log. -/
  | note (text : String)
  /-- Describes one command, or all. -/
  | help (command : Option String)
  | quit
  deriving DecidableEq, Repr

/-- Why a console line asks for nothing. -/
inductive ConsoleError
  /-- There is no such command. -/
  | unknown (command : String)
  /-- The command has too few or too many arguments. -/
  | arity (usage : String)
  /-- An argument of the command should be a number and is not. -/
  | notANumber (command word : String)
  deriving DecidableEq, Repr

/-- What went wrong, in words. -/
def ConsoleError.message : ConsoleError → String
  | unknown command => "unknown command: " ++ command ++ " (try `help`)"
  | arity usage => "usage: " ++ usage
  | notANumber command word => command ++ ": expected a number, got `" ++ word ++ "`"

end DebugLink
