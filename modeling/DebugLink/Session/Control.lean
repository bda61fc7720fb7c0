import DebugLink.Session.Task

/-!
Operations on the program, its breakpoints, its execution and its stack.
-/

set_option autoImplicit false

namespace DebugLink.Session

/-- Loads a program and sets its arguments. -/
def loadFile (path : String) (arguments : List String) : Operation Unit := do
  let _ ← Operation.request (.execArguments arguments)
  let _ ← Operation.request (.fileExecAndSymbols path)
  Operation.update (·.emit (.fileChanged path))

/-- Attaches to a running process. -/
def attach (process : Nat) : Operation Response :=
  Operation.request (.targetAttach (toString process))

/-- Lets a process go. -/
def detach : Operation Response :=
  Operation.request .targetDetach

/-- Sets a breakpoint; the result is what the debugger made of it. -/
def setBreak (request : BreakRequest) : Operation Breakpoint := do
  let response ← Operation.request (.breakInsert request)
  match response.fields.tuple? "bkpt" >>= Breakpoint.ofFields? with
  | some b => return b
  | none => throw (.invalidResponse .breakpoint)

/-- Deletes breakpoints. -/
def deleteBreakpoints (numbers : List Nat) : Operation Unit := do
  let _ ← Operation.request (.breakDelete numbers)
  Operation.update fun s ↦ numbers.foldl forgetBreakpoint s

/-- Enables or disables those of the breakpoints that are known; the result is what they are
then. -/
def markEnabled (enabled : Bool) :
    List Nat → BreakpointTable → List Breakpoint × BreakpointTable
  | [], table => ([], table)
  | number :: rest, table =>
    let (_, table) := table.setEnabled number enabled
    let (updated, table') := markEnabled enabled rest table
    ((table.get? number).toList ++ updated, table')

/-- Records that breakpoints are enabled or disabled. -/
def recordEnabled (s : Session) (numbers : List Nat) (enabled : Bool) : Session :=
  let (updated, breakpoints) := markEnabled enabled numbers s.breakpoints
  emitAll { s with breakpoints } (updated.map Event.breakpointSet)

/-- Enables breakpoints. -/
def enable (numbers : List Nat) : Operation Unit := do
  let _ ← Operation.request (.breakEnable numbers)
  Operation.update (·.recordEnabled numbers true)

/-- Disables breakpoints. -/
def disable (numbers : List Nat) : Operation Unit := do
  let _ ← Operation.request (.breakDisable numbers)
  Operation.update (·.recordEnabled numbers false)

/-- Records the condition of a breakpoint. -/
def recordCondition (s : Session) (number : Nat) (condition : Option String) : Session :=
  let (_, breakpoints) := s.breakpoints.setCondition number condition
  let s := { s with breakpoints }
  match breakpoints.get? number with
  | some b => s.emit (.breakpointSet b)
  | none => s

/-- Sets the condition of a breakpoint; a blank one clears it. -/
def setCondition (number : Nat) (expression : String) : Operation Unit := do
  let _ ← Operation.request (.breakCondition number expression)
  Operation.update
    (·.recordCondition number (if Text.isBlank expression then none else some expression))

/-- Selects a frame; the result is what the debugger says about it. -/
def selectFrame (level : Nat) : Operation (Option Frame) := do
  let _ ← Operation.request (.stackSelectFrame level)
  let response ← Operation.request .stackInfoFrame
  return response.fields.tuple? "frame" >>= Frame.ofFields?

/-- Evaluates an expression. -/
def evaluate (expression : String) : Operation String := do
  let response ← Operation.request (.dataEvaluateExpression expression)
  Operation.textOf response "value" .evaluation

/-- Sends a text typed by the user. -/
def sendRaw (text : String) : Operation Token :=
  Operation.send (Command.raw text)

/-- Asks the debugger to exit. -/
def quit : Operation Unit := do
  let _ ← Operation.send (Request.command .gdbExit)

end DebugLink.Session
