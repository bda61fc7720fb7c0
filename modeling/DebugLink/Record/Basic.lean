import DebugLink.Record.Value

/-!
Records: what one line of the debugger's output says. Stream records carry text, asynchronous
records report what happened, result records answer a command, and the prompt ends a turn.
-/

set_option autoImplicit false

namespace DebugLink

/-- The number that ties a command to its answer. -/
abbrev Token : Type := UInt64

/-- Where the text of a stream record comes from. -/
inductive Channel
  /-- The debugger's own console. -/
  | console
  /-- The program being debugged. -/
  | target
  /-- The debugger's log. -/
  | log
  deriving DecidableEq, Repr

/-- What an asynchronous record is about. -/
inductive Notice
  /-- The execution state changed. -/
  | exec
  /-- Something else the client may want to know. -/
  | notify
  /-- The progress of a slow operation. -/
  | status
  deriving DecidableEq, Repr

/-- One line of output. -/
inductive Record
  | stream (channel : Channel) (text : String)
  | async (notice : Notice) (token : Option Token) (cls : String) (fields : Fields)
  | result (token : Option Token) (cls : String) (fields : Fields)
  | prompt

namespace Record

/-- The token of an asynchronous or result record that has one. -/
def token? : Record → Option Token
  | async _ token _ _ => token
  | result token _ _ => token
  | _ => none

/-- The fields of an asynchronous or result record. -/
def fields? : Record → Option Fields
  | async _ _ _ fields => some fields
  | result _ _ fields => some fields
  | _ => none

end Record

end DebugLink
