import DebugLink.Record.Basic
import DebugLink.Text.Numeral

/-!
Stack frames: where the target is stopped.
-/

set_option autoImplicit false

namespace DebugLink

/-- A place in the target, as far as the debugger knows it. -/
structure Frame where
  level : Option Nat
  address : Option String
  function : Option String
  /-- The source file as the debugger names it. -/
  file : Option String
  /-- The absolute path of the source file. -/
  fullname : Option String
  line : Option Nat
  deriving DecidableEq, Repr

namespace Frame

/-- The frame that a tuple describes. A tuple with neither an address nor a function nor a file
describes none. -/
def ofFields? (fields : Fields) : Option Frame :=
  let frame : Frame :=
    { level := fields.text? "level" >>= Numeral.word32?
      address := fields.text? "addr"
      function := fields.text? "func"
      file := fields.text? "file"
      fullname := fields.text? "fullname"
      line := fields.text? "line" >>= Numeral.word32? }
  if frame.address.isSome || frame.function.isSome || frame.file.isSome then some frame else none

/-- The path under which to open the source: the absolute one if it is known. -/
def sourcePath? (frame : Frame) : Option String :=
  frame.fullname <|> frame.file

/-- The frame in words: the function, and where it is. -/
def text (frame : Frame) : String :=
  let function := frame.function.getD "??"
  match frame.file, frame.line with
  | some file, some line => function ++ " at " ++ file ++ ":" ++ toString line
  | _, _ =>
    match frame.address with
    | some address => function ++ " (" ++ address ++ ")"
    | none => function

end Frame

end DebugLink
