import DebugLink.Command.Basic

/-!
What can be asked of the debugger, and the commands that ask for it.
-/

set_option autoImplicit false

namespace DebugLink

/-- How the value of a variable object is shown. -/
inductive DisplayFormat
  | binary | decimal | hexadecimal | octal | natural
  deriving DecidableEq, Repr

namespace DisplayFormat

def text : DisplayFormat → String
  | binary => "binary"
  | decimal => "decimal"
  | hexadecimal => "hexadecimal"
  | octal => "octal"
  | natural => "natural"

/-- Reads a format by its name or by its letter. -/
def parse? : String → Option DisplayFormat
  | "binary" | "b" => some binary
  | "decimal" | "d" => some decimal
  | "hexadecimal" | "hex" | "x" => some hexadecimal
  | "octal" | "o" => some octal
  | "natural" | "n" => some natural
  | _ => none

/-- What is said of a name that is no format. -/
def unknownMessage (name : String) : String :=
  "unknown format: " ++ name

end DisplayFormat

/-- How many values a listing of variable objects reports. -/
inductive Detail
  | noValues | allValues | simpleValues
  deriving DecidableEq, Repr

/-- The option that asks for a level of detail. -/
def Detail.option : Detail → String
  | noValues => "--no-values"
  | allValues => "--all-values"
  | simpleValues => "--simple-values"

/-- Which accesses a watchpoint stops at. -/
inductive Access
  | write | read | readWrite
  deriving DecidableEq, Repr

/-- The options that ask for a kind of access. -/
def Access.options : Access → List String
  | write => []
  | read => ["-r"]
  | readWrite => ["-a"]

/-- A breakpoint to be set. -/
structure BreakRequest where
  location : Option String
  condition : Option String
  temporary : Bool
  hardware : Bool
  /-- Whether the breakpoint may wait for its location to become known. -/
  force : Bool
  ignoreCount : Option Nat
  thread : Option Nat
  deriving DecidableEq, Repr

namespace BreakRequest

/-- A plain breakpoint at a location. -/
def atLocation (location : String) : BreakRequest :=
  ⟨some location, none, false, false, false, none, none⟩

/-- An option with a value, if there is a value. -/
def valued (flag : String) (value : Option String) : List String :=
  match value with
  | some value => [flag, value]
  | none => []

/-- The options that describe the breakpoint. -/
def options (request : BreakRequest) : List String :=
  (if request.temporary then ["-t"] else []) ++ (if request.hardware then ["-h"] else []) ++
    (if request.force then ["-f"] else []) ++ valued "-c" request.condition ++
    valued "-i" (request.ignoreCount.map toString) ++ valued "-p" (request.thread.map toString)

end BreakRequest

/-- Which instructions to disassemble. -/
inductive CodeRange
  | addresses (first last : String)
  | source (file : String) (line : Nat) (lines : Option Nat)
  deriving DecidableEq, Repr

/-- The options that describe a range. -/
def CodeRange.options : CodeRange → List String
  | addresses first last => ["-s", first, "-e", last]
  | source file line lines =>
    ["-f", file, "-l", toString line] ++ BreakRequest.valued "-n" (lines.map toString)

/-- What can be asked of the debugger. -/
inductive Request
  /-- An operation without a name of its own here. -/
  | other (operation : String) (options parameters : List String)
  | breakAfter (number count : Nat)
  | breakCondition (number : Nat) (condition : String)
  | breakDelete (numbers : List Nat)
  | breakDisable (numbers : List Nat)
  | breakEnable (numbers : List Nat)
  | breakInfo (number : Nat)
  | breakInsert (request : BreakRequest)
  | breakList
  | breakWatch (expression : String) (access : Access)
  | execArguments (arguments : List String)
  | environmentCd (directory : String)
  | environmentPwd
  | execContinue
  | execFinish
  | execInterrupt
  | execNext
  | execNextInstruction
  | execReturn
  | execRun
  | execStep
  | execStepInstruction
  | execUntil (location : Option String)
  | stackInfoFrame
  | stackInfoDepth (limit : Option Nat)
  | stackListArguments (values : Bool) (range : Option (Nat × Nat))
  | stackListFrames (range : Option (Nat × Nat))
  | stackListLocals (values : Bool)
  | stackSelectFrame (level : Nat)
  /-- A new variable object; the debugger picks a name and takes the current frame by default. -/
  | varCreate (name frame : Option String) (expression : String)
  | varDelete (name : String)
  | varSetFormat (name : String) (format : DisplayFormat)
  | varShowFormat (name : String)
  | varInfoNumChildren (name : String)
  | varListChildren (name : String) (detail : Detail)
  | varInfoType (name : String)
  | varInfoPathExpression (name : String)
  | varShowAttributes (name : String)
  | varEvaluateExpression (name : String)
  | varAssign (name expression : String)
  /-- An update of one variable object, or of all. -/
  | varUpdate (name : Option String) (detail : Detail)
  | varSetFrozen (name : String) (frozen : Bool)
  | dataEvaluateExpression (expression : String)
  | dataDisassemble (range : CodeRange) (mode : Nat)
  | dataListRegisterNames
  | dataListRegisterValues (format : String) (registers : List Nat)
  | dataListChangedRegisters
  | dataReadMemory (address format : String) (wordSize rows columns : Nat) (offset : Option Int)
  | fileExecAndSymbols (path : String)
  | fileExecFile (path : String)
  | fileListExecSections
  | fileListExecSourceFile
  | fileListExecSourceFiles
  | fileListSharedLibraries
  | fileListSymbolFiles
  | fileSymbolFile (path : String)
  | targetAttach (target : String)
  | targetDetach
  | targetDisconnect
  | targetDownload
  | targetExecStatus
  | targetSelect (kind : String) (parameters : List String)
  | gdbExit
  deriving DecidableEq, Repr

namespace Request

/-- A yes or no, as the debugger takes it. -/
def flag (b : Bool) : String :=
  if b then "1" else "0"

/-- The two ends of a range, if there is one. -/
def bounds : Option (Nat × Nat) → List String
  | some (low, high) => [toString low, toString high]
  | none => []

/-- The operation, the options and the parameters of a request. -/
def parts : Request → String × List String × List String
  | other operation options parameters => (operation, options, parameters)
  | breakAfter number count => ("-break-after", [], [toString number, toString count])
  | breakCondition number condition => ("-break-condition", [], [toString number, condition])
  | breakDelete numbers => ("-break-delete", [], numbers.map toString)
  | breakDisable numbers => ("-break-disable", [], numbers.map toString)
  | breakEnable numbers => ("-break-enable", [], numbers.map toString)
  | breakInfo number => ("-break-info", [], [toString number])
  | breakInsert request => ("-break-insert", request.options, request.location.toList)
  | breakList => ("-break-list", [], [])
  | breakWatch expression access => ("-break-watch", access.options, [expression])
  | execArguments arguments => ("-exec-arguments", [], arguments)
  | environmentCd directory => ("-environment-cd", [], [directory])
  | environmentPwd => ("-environment-pwd", [], [])
  | execContinue => ("-exec-continue", [], [])
  | execFinish => ("-exec-finish", [], [])
  | execInterrupt => ("-exec-interrupt", [], [])
  | execNext => ("-exec-next", [], [])
  | execNextInstruction => ("-exec-next-instruction", [], [])
  | execReturn => ("-exec-return", [], [])
  | execRun => ("-exec-run", [], [])
  | execStep => ("-exec-step", [], [])
  | execStepInstruction => ("-exec-step-instruction", [], [])
  | execUntil location => ("-exec-until", [], location.toList)
  | stackInfoFrame => ("-stack-info-frame", [], [])
  | stackInfoDepth limit => ("-stack-info-depth", [], (limit.map toString).toList)
  | stackListArguments values range => ("-stack-list-arguments", [], flag values :: bounds range)
  | stackListFrames range => ("-stack-list-frames", [], bounds range)
  | stackListLocals values => ("-stack-list-locals", [], [flag values])
  | stackSelectFrame level => ("-stack-select-frame", [], [toString level])
  | varCreate name frame expression =>
    ("-var-create", [], [name.getD "-", frame.getD "*", expression])
  | varDelete name => ("-var-delete", [], [name])
  | varSetFormat name format => ("-var-set-format", [], [name, format.text])
  | varShowFormat name => ("-var-show-format", [], [name])
  | varInfoNumChildren name => ("-var-info-num-children", [], [name])
  | varListChildren name detail => ("-var-list-children", [detail.option], [name])
  | varInfoType name => ("-var-info-type", [], [name])
  | varInfoPathExpression name => ("-var-info-path-expression", [], [name])
  | varShowAttributes name => ("-var-show-attributes", [], [name])
  | varEvaluateExpression name => ("-var-evaluate-expression", [], [name])
  | varAssign name expression => ("-var-assign", [], [name, expression])
  | varUpdate name detail => ("-var-update", [detail.option], [name.getD "*"])
  | varSetFrozen name frozen => ("-var-set-frozen", [], [name, flag frozen])
  | dataEvaluateExpression expression => ("-data-evaluate-expression", [], [expression])
  | dataDisassemble range mode => ("-data-disassemble", range.options ++ ["--"], [toString mode])
  | dataListRegisterNames => ("-data-list-register-names", [], [])
  | dataListRegisterValues format registers =>
    ("-data-list-register-values", [], format :: registers.map toString)
  | dataListChangedRegisters => ("-data-list-changed-registers", [], [])
  | dataReadMemory address format wordSize rows columns offset =>
    ("-data-read-memory", BreakRequest.valued "-o" (offset.map toString),
      [address, format, toString wordSize, toString rows, toString columns])
  | fileExecAndSymbols path => ("-file-exec-and-symbols", [], [path])
  | fileExecFile path => ("-file-exec-file", [], [path])
  | fileListExecSections => ("-file-list-exec-sections", [], [])
  | fileListExecSourceFile => ("-file-list-exec-source-file", [], [])
  | fileListExecSourceFiles => ("-file-list-exec-source-files", [], [])
  | fileListSharedLibraries => ("-file-list-shared-libraries", [], [])
  | fileListSymbolFiles => ("-file-list-symbol-files", [], [])
  | fileSymbolFile path => ("-file-symbol-file", [], [path])
  | targetAttach target => ("-target-attach", [], [target])
  | targetDetach => ("-target-detach", [], [])
  | targetDisconnect => ("-target-disconnect", [], [])
  | targetDownload => ("-target-download", [], [])
  | targetExecStatus => ("-target-exec-status", [], [])
  | targetSelect kind parameters => ("-target-select", [], kind :: parameters)
  | gdbExit => ("-gdb-exit", [], [])

/-- The command that makes a request. -/
def command (request : Request) : Command :=
  let (operation, options, parameters) := request.parts
  Command.plain operation options parameters

end Request

end DebugLink
