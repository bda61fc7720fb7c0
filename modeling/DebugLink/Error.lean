import DebugLink.Record.Basic

/-!
Why a session operation fails.
-/

set_option autoImplicit false

namespace DebugLink

/-- An answer from the debugger that lacks what it must have. -/
inductive Missing
  /-- A created variable object without a name. -/
  | createdName
  /-- An evaluation of a variable object without a value. -/
  | valueOf (name : String)
  /-- A variable object without a path expression. -/
  | pathOf (name : String)
  /-- An inserted breakpoint without its description. -/
  | breakpoint
  /-- An evaluated expression without a value. -/
  | evaluation
  deriving DecidableEq, Repr

/-- Why a session operation fails. -/
inductive SessionError
  /-- No answer came in time. -/
  | timeout (token : Token)
  /-- The debugger answered with an error. -/
  | command (token : Token) (message : String)
  /-- The session has ended. -/
  | terminated
  /-- The target is running and must not be resumed again. -/
  | busy
  /-- The debugger's answer is incomplete. -/
  | invalidResponse (missing : Missing)
  /-- There is no variable object of that name. -/
  | unknownVariable (name : String)
  deriving DecidableEq, Repr

/-- What is missing, in words. -/
def Missing.message : Missing → String
  | createdName => "var-create without name"
  | valueOf name => "no value for " ++ name
  | pathOf name => "no path_expr for " ++ name
  | breakpoint => "break-insert without bkpt"
  | evaluation => "evaluate without value"

/-- What went wrong, in words. -/
def SessionError.message : SessionError → String
  | timeout token => "command " ++ toString token.toNat ++ " timed out"
  | command token message => "command " ++ toString token.toNat ++ " failed: " ++ message
  | terminated => "session terminated"
  | busy => "session is busy: the target is running"
  | invalidResponse missing => "invalid response: " ++ missing.message
  | unknownVariable name => "unknown variable object: " ++ name

end DebugLink
