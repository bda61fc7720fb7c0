import DebugLink.Breakpoint.Basic
import DebugLink.Frame
import DebugLink.Variable.Basic
import DebugLink.Watch.Native

/-!
What a session tells those who observe it.
-/

set_option autoImplicit false

namespace DebugLink

/-- Something observable happened in a session. -/
inductive Event
  /-- The debugger answered with an error. -/
  | error (token : Option Token) (message : String)
  /-- A program was loaded. -/
  | fileChanged (path : String)
  | breakpointSet (breakpoint : Breakpoint)
  | breakpointDeleted (number : Nat)
  | threadSwitched (thread : Nat)
  | frameChanged (frame : Frame)
  /-- A record was handled completely. -/
  | processed
  /-- The value or the scope of a variable object changed. -/
  | watchUpdated (object : Variable)
  /-- Something below a root object changed. -/
  | rootUpdated (name : String)
  /-- A watch has a new value. -/
  | watchDecoded (id : Nat) (value : Native)
  | consoleOutput (text : String)
  | targetOutput (text : String)
  /-- The debugger is gone. -/
  | sessionEnded (exitCode : Option Int)

end DebugLink
