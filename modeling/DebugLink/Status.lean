import DebugLink.Error
import DebugLink.Frame

/-!
The run state of a session. Submitting a command puts the session into the state of waiting; a stop,
or a result that ends a command, makes it idle again; the end of the debugger is final. Apart from
that the status tracks whether the target is running, which decides whether it may be resumed.
-/

set_option autoImplicit false

namespace DebugLink

/-- Whether a session takes input. -/
inductive RunState
  | idle
  /-- A command is in flight or the target is running. -/
  | awaitingStop
  /-- The debugger is gone. -/
  | terminated
  deriving DecidableEq, Repr

/-- Run state, current thread and current frame. -/
structure Status where
  state : RunState
  running : Bool
  /-- The token of the command that set the target running. -/
  execToken : Option Token
  thread : Option Nat
  frame : Option Frame
  deriving DecidableEq, Repr

namespace Status

/-- The status of a new session. -/
def initial : Status :=
  ⟨.idle, false, none, none, none⟩

def acceptingInput (status : Status) : Bool :=
  status.state = .idle

/-- What happens when a command is about to be written. A command that resumes the target is
refused while the target is running. -/
def attempt (status : Status) (token : Token) (resumes : Bool) :
    Except SessionError Unit × Status :=
  if status.state = .terminated then (.error .terminated, status)
  else if resumes then
    if status.running then (.error .busy, status)
    else
      (.ok (), { status with state := .awaitingStop, running := true, execToken := some token })
  else (.ok (), { status with state := .awaitingStop })

/-- The status in which a command is written, or why it is not. -/
def beginCommand (status : Status) (token : Token) (resumes : Bool) :
    Except SessionError Status :=
  match status.attempt token resumes with
  | (.ok (), begun) => .ok begun
  | (.error e, _) => .error e

/-- What an asynchronous record of the given class does. -/
def onAsync (status : Status) (cls : String) : Status :=
  if status.state = .terminated then status
  else if cls = "running" then { status with running := true }
  else if cls = "stopped" then { status with state := .idle, running := false, execToken := none }
  else status

/-- The classes of results after which the session takes input again. -/
def restoresInput (cls : String) : Bool :=
  ["done", "connected", "error", "exit"].contains cls

/-- What a result record does. A result other than `running` of the command that set the target
running says that it did not start. -/
def onResult (status : Status) (token : Option Token) (cls : String) : Status :=
  if status.state = .terminated then status
  else
    let status := if restoresInput cls then { status with state := .idle } else status
    if token.isSome && token = status.execToken && cls ≠ "running" then
      { status with running := false, execToken := none }
    else status

/-- Records the current thread, and says whether it is a new one. -/
def updateThread (status : Status) (thread : Nat) : Bool × Status :=
  (decide (status.thread ≠ some thread), { status with thread := some thread })

/-- Records the current frame. -/
def setFrame (status : Status) (frame : Frame) : Status :=
  { status with frame := some frame }

/-- Ends the session, and says whether it had not ended before. -/
def terminate (status : Status) : Bool × Status :=
  if status.state = .terminated then (false, status)
  else (true, { status with state := .terminated, running := false, execToken := none })

end Status

end DebugLink
