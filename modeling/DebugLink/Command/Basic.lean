import DebugLink.Record.Basic
import DebugLink.Text.Whitespace

/-!
Commands to the debugger and the lines that they are written as: the token, the operation, the
options and the parameters. Two hyphens stand between options and parameters where a parameter could
be taken for an option. An argument that the debugger would take apart is written as a quoted
string.
-/

set_option autoImplicit false

namespace DebugLink

/-- A command, perhaps with a token that the caller chose. -/
structure Command where
  operation : String
  options : List String
  parameters : List String
  token : Option Token
  /-- Whether the operation is a text to be sent as it is. -/
  verbatim : Bool
  deriving DecidableEq, Repr

namespace Command

/-- A command without a chosen token. -/
def plain (operation : String) (options parameters : List String) : Command :=
  ⟨operation, options, parameters, none, false⟩

/-- A text typed by the user, without the white space around it. -/
def raw (text : String) : Command :=
  ⟨String.ofList (Text.trim text.toList), [], [], none, true⟩

/-- Chooses the token. -/
def withToken (command : Command) (token : Token) : Command :=
  { command with token := some token }

/-- Whether the command sets the target running. -/
def resumesTarget (command : Command) : Bool :=
  !command.verbatim && "-exec-".toList.isPrefixOf command.operation.toList &&
    !(["-exec-arguments", "-exec-interrupt"].contains command.operation)

/-- Whether an argument can be written as it is. -/
def isPlainArgument (argument : List Char) : Bool :=
  !argument.isEmpty && !argument.any fun c ↦ isWhitespace c || c = '"' || c = '\\'

/-- A character between quotes. -/
def quoteChar : Char → List Char
  | '"' => ['\\', '"']
  | '\\' => ['\\', '\\']
  | '\n' => ['\\', 'n']
  | '\t' => ['\\', 't']
  | c => [c]

/-- An argument as it is written. -/
def quote (argument : List Char) : List Char :=
  if isPlainArgument argument then argument
  else ['"'] ++ argument.flatMap quoteChar ++ ['"']

/-- Whether the parameters have to be set apart from the options. -/
def needsSeparator (command : Command) : Bool :=
  !command.options.isEmpty &&
    match command.parameters with
    | parameter :: _ => parameter.toList.head? = some '-'
    | [] => false

/-- The arguments of the command in the order in which they are written. -/
def arguments (command : Command) : List String :=
  command.options ++ (if command.needsSeparator then ["--"] else []) ++ command.parameters

/-- The command without its token. -/
def body (command : Command) : List Char :=
  if command.verbatim then command.operation.toList
  else command.operation.toList ++ command.arguments.flatMap fun a ↦ ' ' :: quote a.toList

/-- The line of the command, without a line end. -/
def render (command : Command) (token : Token) : String :=
  String.ofList ((toString token.toNat).toList ++ command.body)

/-- The command as it is shown, without a token. -/
def text (command : Command) : String :=
  String.ofList command.body

end Command

end DebugLink
