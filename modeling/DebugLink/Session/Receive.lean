import DebugLink.Record.Grammar
import DebugLink.Session.Basic

/-!
What a session does with the debugger's output. Each record first changes the status and the tables,
then answers the command whose token it carries, and is reported as processed in the end; an error
record only ends its own command and is reported as an error.
-/

set_option autoImplicit false

namespace DebugLink.Session

/-- Takes thread and frame from the fields of a record. -/
def applyContext (s : Session) (fields : Fields) : Session :=
  let s :=
    match fields.text? "thread-id" >>= Numeral.word32? with
    | some thread => s.switchThread thread
    | none => s
  match fields.tuple? "frame" >>= Frame.ofFields? with
  | some frame => s.changeFrame frame
  | none => s

/-- Answers the command of a token, if the record has one. -/
def respond (s : Session) (token : Option Token) (cls : String) (fields : Fields) : Session :=
  match token with
  | some token => s.answer token (.ok ⟨token, cls, fields⟩)
  | none => s

/-- Asks for an update of the variable objects, if there are any. -/
def scheduleUpdate (s : Session) : Session :=
  if s.options.autoUpdate && !s.objects.isEmpty then s.signal .updateDue else s

/-- Asks for an update if a record of this class says that the target stopped. -/
def scheduleIfStopped (s : Session) (cls : String) : Session :=
  if cls = "stopped" then s.scheduleUpdate else s

/-- A text from one of the channels. -/
def onStream (s : Session) : Channel → String → Session
  | .console, text => s.emit (.consoleOutput text)
  | .target, text =>
    s.emit (.targetOutput (String.ofList (Text.dropEndWhile (· = '\n') text.toList)))
  | .log, _ => s

/-- A change of the execution state. -/
def onExec (s : Session) (token : Option Token) (cls : String) (fields : Fields) : Session :=
  let s := { s with status := s.status.onAsync cls }
  (((s.applyContext fields).respond token cls fields).scheduleIfStopped cls).emit .processed

/-- What a notification changes, by its class. -/
def applyNotice (s : Session) (cls : String) (fields : Fields) : Session :=
  if cls = "breakpoint-created" ∨ cls = "breakpoint-modified" then
    match fields.tuple? "bkpt" with
    | some bkpt => s.upsertBreakpoint bkpt
    | none => s
  else if cls = "breakpoint-deleted" then
    match fields.text? "id" >>= Numeral.word32? with
    | some number => s.forgetBreakpoint number
    | none => s
  else if cls = "thread-selected" then
    let s :=
      match fields.text? "id" >>= Numeral.word32? with
      | some thread => s.switchThread thread
      | none => s
    s.applyContext fields
  else s

/-- A notification. -/
def onNotify (s : Session) (token : Option Token) (cls : String) (fields : Fields) : Session :=
  ((s.applyNotice cls fields).respond token cls fields).emit .processed

/-- The progress of a slow operation. -/
def onProgress (s : Session) (token : Option Token) (cls : String) (fields : Fields) : Session :=
  (s.respond token cls fields).emit .processed

/-- An error. -/
def onError (s : Session) (token : Option Token) (fields : Fields) : Session :=
  let message := (fields.text? "msg").getD "unknown error"
  let s := { s with status := s.status.onResult token "error" }
  let s :=
    match token with
    | some token => s.answer token (.error (.command token message))
    | none => s
  s.emit (.error token message)

/-- Stores the breakpoint that the result of an insertion carries. -/
def applyResult (s : Session) (cls : String) (fields : Fields) : Session :=
  if cls = "done" then
    match fields.tuple? "bkpt" with
    | some bkpt => s.upsertBreakpoint bkpt
    | none => s
  else s

/-- A result other than an error. -/
def onResult (s : Session) (token : Option Token) (cls : String) (fields : Fields) : Session :=
  let s := { s with status := s.status.onResult token cls }
  ((((s.applyContext fields).applyResult cls fields).respond token cls fields).scheduleIfStopped
    cls).emit .processed

/-- Takes in a record. -/
def receive (s : Session) : Record → Session
  | .stream channel text => s.onStream channel text
  | .async .exec token cls fields => s.onExec token cls fields
  | .async .notify token cls fields => s.onNotify token cls fields
  | .async .status token cls fields => s.onProgress token cls fields
  | .result token cls fields =>
    if cls = "error" then s.onError token fields else s.onResult token cls fields
  | .prompt => s

/-- Takes in a line of output. Blank lines and lines that hold no record are passed over. -/
def receiveLine (s : Session) (line : String) : Session :=
  let line := String.ofList (Text.dropEndWhile (fun c ↦ c = '\r' || c = '\n') line.toList)
  if Text.isBlank line then s
  else
    match Record.parse line with
    | .ok record => s.receive record
    | .error _ => s

/-- Takes in a line of the target's own output. -/
def receiveTarget (s : Session) (line : String) : Session :=
  s.emit (.targetOutput line)

end DebugLink.Session
