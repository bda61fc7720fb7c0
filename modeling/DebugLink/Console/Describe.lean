import DebugLink.Session.Event

/-!
What the console shows of breakpoints and events.
-/

set_option autoImplicit false

namespace DebugLink

/-- Where a breakpoint is: a line, or else a function or an address. -/
def Breakpoint.place? (b : Breakpoint) : Option String :=
  match b.file, b.line with
  | some file, some line => some (file ++ ":" ++ toString line)
  | _, _ => b.function <|> b.address

/-- A breakpoint in words. -/
def Breakpoint.describe (b : Breakpoint) : String :=
  "breakpoint " ++ toString b.number ++ (b.place?.map (" at " ++ ·)).getD "" ++
    (b.condition.map (" if " ++ ·)).getD "" ++ (if b.enabled then "" else " (disabled)")

/-- An output without line feeds at its end. -/
def shownOutput (text : String) : String :=
  String.ofList (Text.dropEndWhile (· = '\n') text.toList)

/-- The line that shows an event; events that only keep the books are not shown. -/
def Event.describe? : Event → Option String
  | error _ message => some ("error: " ++ message)
  | fileChanged path => some ("loaded " ++ path)
  | breakpointSet b => some b.describe
  | breakpointDeleted number => some ("deleted breakpoint " ++ toString number)
  | threadSwitched thread => some ("[thread " ++ toString thread ++ "]")
  | frameChanged frame => some ("=> " ++ frame.text)
  | watchDecoded id value => some ("watch " ++ toString id ++ " = " ++ value.describe)
  | consoleOutput text => some (shownOutput text)
  | targetOutput text => some (shownOutput text)
  | sessionEnded (some code) => some ("debugger exited with code " ++ toString code)
  | sessionEnded none => some "debugger exited"
  | processed => none
  | watchUpdated _ => none
  | rootUpdated _ => none

end DebugLink
