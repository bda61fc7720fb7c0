import DebugLink.Session.Receive
import DebugLink.Session.Watching
import DebugLink.Text.Line

/-!
A session at work: the debugger on the other end, the jobs that are under way, and the clock. One
thing happens at a time. What was asked for last is the job in front; the updates after stops, and
what was begun for later, are in the background.

A job that can go on does so until it waits for an answer. Those in the background go on in the
order in which they were called. When all of them wait, the lines queued for the debugger are
written, and everything that it writes in reply is taken in; that calls those who have their answers
and begins the updates that stops have asked for. The job in front goes on when nothing else can.
When it waits too, only the clock can bring something about: those who have waited too long give up,
the job in front before the others.
-/

set_option autoImplicit false

namespace DebugLink

/-- A debugger, from outside: what it writes for each line that it reads. -/
structure Debugger (σ : Type) where
  reply : String → σ → List String × σ

/-- A task whose value matters only if somebody asked for it. -/
abbrev Job (ρ : Type) : Type := Task (Option ρ)

/-- A job that waits for an answer. -/
structure Waiting (ρ : Type) where
  ticket : Nat
  token : Token
  /-- The time at which it gives up. -/
  deadline : Nat
  /-- Whether this is the job in front. -/
  inFront : Bool
  next : Except SessionError Response → Job ρ

/-- A session at work. -/
structure World (σ ρ : Type) where
  session : Session
  /-- The state of the debugger. -/
  debugger : σ
  /-- Whether the debugger still reads what it is sent. -/
  reading : Bool
  /-- Whether the debugger can still write. -/
  writing : Bool
  /-- What the debugger wrote since the last end of a line. -/
  remainder : List UInt8
  /-- The time in milliseconds. -/
  clock : Nat
  /-- The job in front, if it can go on. -/
  front : Option (Job ρ)
  /-- The jobs in the background that can go on, the first one first. -/
  ready : List (Job ρ)
  /-- The jobs that wait, the longest waiting first. -/
  waiting : List (Waiting ρ)
  /-- The values of the jobs that are done, the first one first. -/
  results : List ρ
  /-- The lines that the debugger has read, the first one first. -/
  sent : List String
  /-- How many signals of the session were heard. -/
  heard : Nat

/-- Where a task stands when it cannot go on by itself. -/
inductive Standstill (α : Type)
  | done (value : α)
  | waiting (ticket : Nat) (token : Token) (next : Except SessionError Response → Task α)
  | endless

/-- Runs a task as far as it gets without an answer. A command that cannot be submitted is answered
at once by the error, and one that there is no time to wait for by running out of time. -/
def Task.advance {α : Type} : Task α → Session → Standstill α × Session
  | done value, s => (.done value, s)
  | act change next, s => (next s).advance (change s)
  | exchange command next, s =>
    let (ticket, s) := s.newTicket
    match s.submit command (some (.waiter ticket)) with
    | (.error e, s) => (next (.error e)).advance s
    | (.ok token, s) =>
      if s.options.timeout = 0 then (next (.error (.timeout token))).advance (s.cancel token)
      else (.waiting ticket token next, s)
  | endless, s => (.endless, s)

namespace World

variable {σ ρ : Type}

/-- A session at its beginning, with a debugger in a given state. -/
def start (options : SessionOptions) (debugger : σ) : World σ ρ :=
  { session := Session.start options
    debugger
    reading := true
    writing := true
    remainder := []
    clock := 0
    front := none
    ready := []
    waiting := []
    results := []
    sent := []
    heard := 0 }

/-! ### Jobs -/

/-- Makes a job in the background ready to go on. -/
def spawn (w : World σ ρ) (job : Job ρ) : World σ ρ :=
  { w with ready := w.ready ++ [job] }

/-- Makes a job that waited ready to go on. -/
def resume (w : World σ ρ) (waiting : Waiting ρ) (job : Job ρ) : World σ ρ :=
  if waiting.inFront then { w with front := some job } else w.spawn job

/-- The update of all variable objects, as a job. Nobody asked for its value. -/
def updateJob : Job ρ :=
  Task.bind (Session.updateObjects Session.nestingLimit).run fun _ ↦ .done none

/-- Acts on a signal of the session: hands an answer to the job that waits for it, if any does, or
begins an update. -/
def hear (w : World σ ρ) : Signal → World σ ρ
  | .answered ticket result =>
    match w.waiting.find? (·.ticket = ticket) with
    | some waiting =>
      let others := w.waiting.filter (·.ticket ≠ ticket)
      resume { w with waiting := others } waiting (waiting.next result)
    | none => w
  | .updateDue => w.spawn updateJob

/-- Acts on the signals that have come, in their order. -/
def wake (w : World σ ρ) : World σ ρ :=
  (w.session.signals.drop w.heard).foldl hear { w with heard := w.session.signals.length }

/-- Runs a job until it is done or waits. -/
def runJob (inFront : Bool) (job : Job ρ) (w : World σ ρ) : World σ ρ :=
  let (standstill, session) := job.advance w.session
  let w := { w with session }
  wake <|
    match standstill with
    | .done value => { w with results := w.results ++ value.toList }
    | .waiting ticket token next =>
      let deadline := w.clock + session.options.timeout
      { w with waiting := w.waiting ++ [⟨ticket, token, deadline, inFront, next⟩] }
    | .endless => w

/-! ### The debugger's end -/

/-- Takes in a line of output. -/
def takeIn (w : World σ ρ) (line : String) : World σ ρ :=
  { w with session := w.session.receiveLine line }

/-- Takes in bytes that the debugger writes. What is no complete line yet is kept for later. -/
def feed (w : World σ ρ) (bytes : List UInt8) : World σ ρ :=
  if w.writing then
    let (lines, remainder) := Line.complete (w.remainder ++ bytes)
    (lines.map Line.text).foldl takeIn { w with remainder }
  else w

/-- The debugger's output ends, and with it the session. A line without an end is taken in
before. -/
def closeOutput (w : World σ ρ) : World σ ρ :=
  if w.writing then
    let w := (Line.last? w.remainder).toList.foldl takeIn { w with remainder := [] }
    { w with session := w.session.finish none, writing := false }
  else w

/-- The debugger stops reading. -/
def closeInput (w : World σ ρ) : World σ ρ :=
  { w with reading := false }

/-- Takes in everything that the target itself has written. -/
def feedTarget (w : World σ ρ) (bytes : List UInt8) : World σ ρ :=
  { w with session := (Line.all bytes).foldl Session.receiveTarget w.session }

variable (debugger : Debugger σ)

/-- The debugger reads a line, and its reply is taken in. -/
def deliver (w : World σ ρ) (line : String) : World σ ρ :=
  let (reply, state) := debugger.reply line w.debugger
  feed { w with debugger := state, sent := w.sent ++ [line] } (reply.flatMap Line.ofText)

/-- Writes a text to the debugger, which reads it line by line. Once a text could not be written
none can be queued any more. -/
def write (w : World σ ρ) (text : String) : World σ ρ :=
  if w.reading then
    ((Text.splitAt '\n' text.toList).map String.ofList).foldl (deliver debugger) w
  else { w with session := { w.session with writable := false } }

/-- Writes everything that is queued. -/
def flush (w : World σ ρ) : World σ ρ :=
  w.session.outbox.foldl (write debugger) { w with session := { w.session with outbox := [] } }

/-! ### Going on -/

/-- The next thing that happens, if something can happen before the clock moves. -/
def step? (w : World σ ρ) : Option (World σ ρ) :=
  match w.ready, w.front with
  | job :: others, _ => some (runJob false job { w with ready := others })
  | [], front =>
    if !w.session.outbox.isEmpty then some (w.flush debugger).wake
    else front.map fun job ↦ runJob true job { w with front := none }

/-- Goes on for at most a number of steps. -/
def settleWithin : Nat → World σ ρ → World σ ρ
  | 0, w => w
  | fuel + 1, w =>
    match w.step? debugger with
    | some w => settleWithin fuel w
    | none => w

/-- More steps than anyone will ever see. -/
def patience : Nat := UInt64.size

/-- Goes on until nothing can happen before the clock moves. -/
def settle (w : World σ ρ) : World σ ρ :=
  settleWithin debugger patience w

/-! ### Time -/

/-- What a job does that has waited too long. -/
def giveUp (waiting : Waiting ρ) : Job ρ :=
  .act (·.cancel waiting.token) fun _ ↦ waiting.next (.error (.timeout waiting.token))

/-- Moves the clock on to a time. Whoever would have given up by then does so, the earliest first;
the job in front goes on at once. -/
def moveClock (time : Nat) (w : World σ ρ) : World σ ρ :=
  let (late, patient) := w.waiting.partition (·.deadline ≤ time)
  let w := { w with clock := max w.clock time, waiting := patient }
  let w := (late.mergeSort fun a b ↦ a.deadline ≤ b.deadline).foldl
    (fun w waiting ↦ w.resume waiting (giveUp waiting)) w
  match w.front with
  | some job => runJob true job { w with front := none }
  | none => w

/-- The time at which the next job gives up. -/
def nextDeadline? (w : World σ ρ) : Option Nat :=
  (w.waiting.map (·.deadline)).min?

/-- Goes on until the results are enough, moving the clock where nothing else helps, for at most a
number of moves. -/
def awaitWithin (enough : List ρ → Bool) : Nat → World σ ρ → World σ ρ
  | 0, w => w
  | fuel + 1, w =>
    let w := w.settle debugger
    if enough w.results then w
    else
      match w.nextDeadline? with
      | some time => awaitWithin enough fuel (w.moveClock time)
      | none => w

/-- Lets a number of milliseconds pass. -/
def pass (w : World σ ρ) (milliseconds : Nat) : World σ ρ :=
  (w.moveClock (w.clock + milliseconds)).settle debugger

/-- Begins a job in the background and goes on until everything waits. -/
def begin (w : World σ ρ) (job : Job ρ) : World σ ρ :=
  (w.spawn job).settle debugger

/-- Begins the job in front and goes on until the results are enough. -/
def complete (w : World σ ρ) (job : Job ρ) (enough : List ρ → Bool) : World σ ρ :=
  awaitWithin debugger enough patience (runJob true job w)

/-- Lets something happen, and goes on until everything waits. -/
def after (w : World σ ρ) (change : World σ ρ → World σ ρ) : World σ ρ :=
  (change w).wake.settle debugger

end World

end DebugLink
