import DebugLink.Console.Describe
import DebugLink.Console.Entry
import DebugLink.Session.Control
import DebugLink.Session.Watching

/-!
Doing what a console line asks for. The result is the lines to show and whether the console goes on.
-/

set_option autoImplicit false

namespace DebugLink

/-- What came of an action. -/
structure ActionResult where
  /-- The lines to show. -/
  lines : List String
  /-- Whether the user wants to leave. -/
  leaving : Bool
  deriving DecidableEq, Repr

/-- What an action was about when it failed. -/
inductive Purpose
  | loading (path : String)
  | evaluating (expression : String)
  | watching (expression : String)
  deriving DecidableEq, Repr

def Purpose.text : Purpose → String
  | loading path => "loading " ++ path
  | evaluating expression => "evaluating " ++ expression
  | watching expression => "watching " ++ expression

/-- Why an action failed. -/
inductive ActionError
  | session (cause : SessionError)
  /-- A failure that is reported together with what was being done. -/
  | during (purpose : Purpose) (cause : SessionError)
  | console (cause : ConsoleError)
  deriving DecidableEq, Repr

/-- What went wrong, in words. -/
def ActionError.message : ActionError → String
  | session cause => cause.message
  | during purpose cause => purpose.text ++ ": " ++ cause.message
  | console cause => cause.message

namespace Action

/-- Doing an action. -/
abbrev Performance : Type := ExceptT ActionError Task ActionResult

/-- Performs an operation and shows the lines that follow from its value. -/
def showing {α : Type} (operation : Operation α) (lines : α → List String) : Performance :=
  ExceptT.mk do
    match ← operation.run with
    | .ok value => return .ok ⟨lines value, false⟩
    | .error e => return .error (.session e)

/-- Performs an operation and shows nothing. -/
def silent {α : Type} (operation : Operation α) : Performance :=
  showing operation fun _ ↦ []

/-- Makes a request and shows nothing. -/
def asking (request : Request) : Performance :=
  silent (Operation.request request)

/-- Reports what was being done when an action fails. -/
def reporting (purpose : Purpose) (performance : Performance) : Performance :=
  ExceptT.mk do
    match ← performance.run with
    | .error (.session e) => return .error (.during purpose e)
    | result => return result

/-- A number with at least three places. -/
def placed (n : Nat) : String :=
  String.ofList (List.replicate (3 - (toString n).length) ' ') ++ toString n

/-- A line for each watch, with its value. -/
def watchLines (s : Session) : List String :=
  s.watchList.map fun watch ↦
    placed watch.1 ++ "  " ++ watch.2 ++ " = " ++
      ((s.watchValue? watch.1).map Native.describe).getD ""

/-- What is shown of a selected frame. -/
def frameLine (level : Nat) : Option Frame → String
  | some frame => "#" ++ toString level ++ " " ++ frame.text
  | none => "no frame at level " ++ toString level

/-- Does what is asked for. -/
def perform : Action → Performance
  | setBreak request => showing (Session.setBreak request) fun b ↦ [b.describe]
  | delete numbers => silent (Session.deleteBreakpoints numbers)
  | enable numbers => silent (Session.enable numbers)
  | disable numbers => silent (Session.disable numbers)
  | condition number expression => silent (Session.setCondition number expression)
  | run => asking .execRun
  | resume => asking .execContinue
  | step => asking .execStep
  | next => asking .execNext
  | stepInstruction => asking .execStepInstruction
  | nextInstruction => asking .execNextInstruction
  | runUntil location => asking (.execUntil location)
  | finish => asking .execFinish
  | returnNow => asking .execReturn
  | interrupt => asking .execInterrupt
  | loadFile path arguments =>
    reporting (.loading path) (silent (Session.loadFile path arguments))
  | attach process => silent (Session.attach process)
  | detach => silent Session.detach
  | selectFrame level => showing (Session.selectFrame level) fun frame ↦ [frameLine level frame]
  | evaluate expression =>
    reporting (.evaluating expression)
      (showing (Session.evaluate expression) fun value ↦ [expression ++ " = " ++ value])
  | watch expression =>
    reporting (.watching expression)
      (showing (Session.addWatch Session.nestingLimit expression) fun id ↦
        ["watch " ++ toString id ++ ": " ++ expression])
  | unwatch id =>
    showing (Session.removeWatch id) fun known ↦
      if known then [] else ["no watch " ++ toString id]
  | listWatches => showing (Operation.query watchLines) id
  | send text => silent (Session.sendRaw text)
  | note _ => pure ⟨[], false⟩
  | help command =>
    match Entry.help command with
    | .ok text => pure ⟨[text], false⟩
    | .error e => throw (.console e)
  | quit => pure ⟨[], true⟩

end Action

end DebugLink
