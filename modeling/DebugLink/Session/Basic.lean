import DebugLink.Breakpoint.Table
import DebugLink.Command.Basic
import DebugLink.Pending
import DebugLink.Session.Event
import DebugLink.Status
import DebugLink.Variable.Table
import DebugLink.Watch.Registry

/-!
The state of a session and its elementary steps. Submitting a command takes three steps: the status
admits it, its handler is registered, and its line is queued for the debugger. The end of a session
takes two: the status is final from then on, and whoever waits is told.
-/

set_option autoImplicit false

namespace DebugLink

/-- What can be adjusted about a session. -/
structure SessionOptions where
  /-- How long to wait for an answer, in milliseconds. -/
  timeout : Nat
  /-- The token of the first command. -/
  firstToken : Token
  /-- Whether variable objects are updated after every stop. -/
  autoUpdate : Bool
  /-- The most elements of a container that a watch looks at. -/
  maxElements : Nat
  deriving DecidableEq, Repr

namespace SessionOptions

/-- The options of a session for which nothing else is said. -/
def standard : SessionOptions :=
  ⟨5000, 1000001, true, 1000⟩

end SessionOptions

/-- What a session lets those around it know. -/
inductive Signal
  /-- Someone who waited has an answer. -/
  | answered (ticket : Nat) (result : Except SessionError Response)
  /-- A stop asks for an update of the variable objects. -/
  | updateDue

/-- The state of a session, what it has told its observers and callers, and what it has queued. -/
structure Session where
  options : SessionOptions
  status : Status
  pending : PendingTable
  breakpoints : BreakpointTable
  objects : VariableTable
  watches : WatchRegistry
  nextToken : Token
  /-- The number of the next watch. It never starts over. -/
  nextWatch : Nat
  /-- The next ticket for a caller who waits. -/
  nextTicket : Nat
  /-- Whether lines can still be queued for the debugger. -/
  writable : Bool
  /-- The lines that are queued for the debugger, the first one first. -/
  outbox : List String
  /-- All events so far, the first one first. -/
  events : List Event
  /-- All signals so far, the first one first. -/
  signals : List Signal
  /-- All responses for which a callback was called, the first one first. -/
  calls : List Response

namespace Session

/-- A session about which nothing has happened yet. -/
def start (options : SessionOptions) : Session :=
  { options
    status := Status.initial
    pending := PendingTable.empty
    breakpoints := BreakpointTable.empty
    objects := VariableTable.empty
    watches := WatchRegistry.empty
    nextToken := options.firstToken
    nextWatch := 1
    nextTicket := 0
    writable := true
    outbox := []
    events := []
    signals := []
    calls := [] }

/-- Publishes an event. -/
def emit (s : Session) (event : Event) : Session :=
  { s with events := s.events ++ [event] }

/-- Publishes events in order. -/
def emitAll (s : Session) (events : List Event) : Session :=
  events.foldl emit s

/-- Gives a signal. -/
def signal (s : Session) (signal : Signal) : Session :=
  { s with signals := s.signals ++ [signal] }

/-! ### Handlers -/

/-- Tells a handler how its command ended. A callback is not called for an error. -/
def settle (s : Session) (result : Except SessionError Response) : Handler → Session
  | .waiter ticket => s.signal (.answered ticket result)
  | .callback =>
    match result with
    | .ok response => { s with calls := s.calls ++ [response] }
    | .error _ => s

/-- Drops a handler that was taken out of the table, if any. Whoever waits learns of it as the end
of the session. -/
def drop (s : Session) : Option Handler → Session
  | some handler => s.settle (.error .terminated) handler
  | none => s

/-- Registers a handler; one that was there before is dropped. -/
def register (s : Session) (token : Token) (handler : Handler) : Session :=
  let (displaced, pending) := s.pending.register token handler
  drop { s with pending } displaced

/-- Drops the handler of a token. -/
def cancel (s : Session) (token : Token) : Session :=
  let (dropped, pending) := s.pending.take token
  drop { s with pending } dropped

/-- Takes the handler of a token and tells it how its command ended. -/
def answer (s : Session) (token : Token) (result : Except SessionError Response) : Session :=
  match s.pending.take token with
  | (some handler, pending) => settle { s with pending } result handler
  | (none, _) => s

/-! ### Submitting commands -/

/-- The token of a command: the one its caller chose, or the next one. -/
def allocate (s : Session) (command : Command) : Token × Session :=
  match command.token with
  | some token => (token, s)
  | none => (s.nextToken, { s with nextToken := s.nextToken + 1 })

/-- The first step of a submission: the status admits the command. -/
def allow (s : Session) (token : Token) (command : Command) :
    Except SessionError Unit × Session :=
  let (result, status) := s.status.attempt token command.resumesTarget
  (result, { s with status })

/-- The second step of a submission: the handler is registered, if there is one. -/
def registerIfAny (s : Session) (token : Token) : Option Handler → Session
  | some handler => s.register token handler
  | none => s

/-- The third step of a submission: the line is queued. If that is impossible the handler is
dropped. -/
def queue (s : Session) (token : Token) (command : Command) :
    Except SessionError Token × Session :=
  if s.writable then (.ok token, { s with outbox := s.outbox ++ [command.render token] })
  else (.error .terminated, s.cancel token)

/-- Submits a command; the result is its token. -/
def submit (s : Session) (command : Command) (handler : Option Handler) :
    Except SessionError Token × Session :=
  let (token, s) := s.allocate command
  match s.allow token command with
  | (.error e, s) => (.error e, s)
  | (.ok (), s) => (s.registerIfAny token handler).queue token command

/-- A ticket that no caller has had yet. -/
def newTicket (s : Session) : Nat × Session :=
  (s.nextTicket, { s with nextTicket := s.nextTicket + 1 })

/-! ### The end -/

/-- The first step of the end: the status is final. The result says whether it was not before. -/
def terminate (s : Session) : Bool × Session :=
  let (first, status) := s.status.terminate
  (first, { s with status })

/-- The second step of the end: everyone who waits is told. -/
def failAll (s : Session) : Session :=
  let (tickets, pending) := s.pending.failAll
  tickets.foldl (fun s ticket ↦ s.signal (.answered ticket (.error .terminated))) { s with pending }

/-- Ends the session. Only the first time has an effect. -/
def finish (s : Session) (exitCode : Option Int) : Session :=
  match s.terminate with
  | (true, s) => s.failAll.emit (.sessionEnded exitCode)
  | (false, s) => s

/-! ### Breakpoints and context -/

/-- Stores the breakpoint that a tuple describes, if it describes one. -/
def upsertBreakpoint (s : Session) (fields : Fields) : Session :=
  match Breakpoint.ofFields? fields with
  | some b => emit { s with breakpoints := (s.breakpoints.insert b).2 } (.breakpointSet b)
  | none => s

/-- Removes a breakpoint, if it is known. -/
def forgetBreakpoint (s : Session) (number : Nat) : Session :=
  match s.breakpoints.remove number with
  | (some _, breakpoints) => emit { s with breakpoints } (.breakpointDeleted number)
  | (none, _) => s

/-- Makes a thread the current one. -/
def switchThread (s : Session) (thread : Nat) : Session :=
  let (isNew, status) := s.status.updateThread thread
  let s := { s with status }
  if isNew then s.emit (.threadSwitched thread) else s

/-- Makes a frame the current one. -/
def changeFrame (s : Session) (frame : Frame) : Session :=
  emit { s with status := s.status.setFrame frame } (.frameChanged frame)

end Session

end DebugLink
