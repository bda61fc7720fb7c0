import DebugLink.Console.Action
import DebugLink.Text.Numeral
import DebugLink.Text.Whitespace

/-!
The commands of the console and how lines are read. A line is a command and its arguments, separated
by white space. Some commands take the text after a point as a whole, with the white space in it.
-/

set_option autoImplicit false

namespace DebugLink

/-- What follows the name of a command, without white space around it. -/
structure Arguments where
  /-- The name of the command. -/
  command : String
  text : List Char

namespace Arguments

/-- The arguments one by one. -/
def words (arguments : Arguments) : List String :=
  (Text.words arguments.text).map String.ofList

/-- All of the text. -/
def whole (arguments : Arguments) : String :=
  String.ofList arguments.text

/-- The first argument, and what follows it without white space around it. -/
def headAndRest (arguments : Arguments) : String × String :=
  match Text.nextWord? arguments.text with
  | some (word, rest) => (String.ofList word, String.ofList (Text.trim rest))
  | none => ("", "")

/-- A word as a number below a bound. -/
def number (arguments : Arguments) (bound : Nat) (word : String) : Except ConsoleError Nat :=
  match Numeral.unsigned? 10 bound word.toList with
  | some n => .ok n
  | none => .error (.notANumber arguments.command word)

/-- All arguments as numbers of 32 bits. -/
def numbers (arguments : Arguments) : Except ConsoleError (List Nat) :=
  arguments.words.mapM (arguments.number UInt32.size)

/-- The first argument as a number below a bound. -/
def firstNumber (arguments : Arguments) (bound : Nat) : Except ConsoleError Nat :=
  arguments.number bound arguments.headAndRest.1

end Arguments

/-- A command of the console. -/
structure Entry where
  name : String
  aliases : List String
  usage : String
  summary : String
  /-- The fewest arguments. -/
  least : Nat
  /-- The most arguments, if there is a limit. -/
  most : Option Nat
  /-- What it asks for, given a number of arguments that it takes. -/
  read : Arguments → Except ConsoleError Action

namespace Entry

/-- Whether the command takes a number of arguments. -/
def accepts (entry : Entry) (count : Nat) : Bool :=
  entry.least ≤ count && entry.most.all (count ≤ ·)

/-- Whether a word names the command. -/
def hasName (entry : Entry) (word : String) : Bool :=
  word = entry.name || entry.aliases.contains word

/-- A command without arguments. -/
def bare (name summary : String) (action : Action) : Entry :=
  ⟨name, [], name, summary, 0, some 0, fun _ ↦ .ok action⟩

/-- A command for a list of breakpoints. -/
def onBreakpoints (name summary : String) (action : List Nat → Action) : Entry :=
  ⟨name, [], name ++ " NUMBER...", summary, 1, none, fun a ↦ a.numbers.map action⟩

/-- A command for a text. -/
def onText (name : String) (aliases : List String) (placeholder summary : String)
    (action : String → Action) : Entry :=
  ⟨name, aliases, name ++ " " ++ placeholder, summary, 1, none, fun a ↦ .ok (action a.whole)⟩

/-- A command for a number below a bound. -/
def onNumber (name placeholder summary : String) (bound : Nat) (action : Nat → Action) : Entry :=
  ⟨name, [], name ++ " " ++ placeholder, summary, 1, some 1,
    fun a ↦ (a.firstNumber bound).map action⟩

/-- A command for one word that may be left out. -/
def onWord (name placeholder summary : String) (action : Option String → Action) : Entry :=
  ⟨name, [], name ++ " [" ++ placeholder ++ "]", summary, 0, some 1,
    fun a ↦ .ok (action a.words.head?)⟩

/-- A command for a special breakpoint at a location. -/
def onLocation (name summary : String) (request : String → BreakRequest) : Entry :=
  ⟨name, [], name ++ " LOCATION", summary, 1, some 1, fun a ↦ .ok (.setBreak (request a.whole))⟩

/-- A breakpoint at a location with a condition, unless that is empty. -/
def conditional (location condition : String) : BreakRequest :=
  { BreakRequest.atLocation location with
    condition := if condition.isEmpty then none else some condition }

/-- The commands in the order in which they are listed. -/
def all : List Entry :=
  [⟨"b", [], "b LOCATION [CONDITION]", "set a breakpoint, optionally conditional", 1, none,
      fun a ↦ .ok (.setBreak (conditional a.headAndRest.1 a.headAndRest.2))⟩,
    onLocation "tb" "set a temporary breakpoint"
      fun l ↦ { BreakRequest.atLocation l with temporary := true },
    onLocation "hb" "set a hardware breakpoint"
      fun l ↦ { BreakRequest.atLocation l with hardware := true },
    onBreakpoints "d" "delete breakpoints" .delete,
    onBreakpoints "en" "enable breakpoints" .enable,
    onBreakpoints "dis" "disable breakpoints" .disable,
    ⟨"cond", [], "cond NUMBER [EXPRESSION]", "set or clear a breakpoint condition", 1, none,
      fun a ↦ (a.firstNumber UInt32.size).map (.condition · a.headAndRest.2)⟩,
    bare "r" "run the program" .run,
    bare "c" "continue" .resume,
    bare "s" "step into" .step,
    bare "n" "step over" .next,
    bare "si" "step one instruction" .stepInstruction,
    bare "ni" "step over one instruction" .nextInstruction,
    onWord "u" "LOCATION" "run until a location or the next line" .runUntil,
    bare "fin" "run until the current function returns" .finish,
    bare "ret" "return from the current function now" .returnNow,
    bare "int" "interrupt the running program" .interrupt,
    ⟨"f", ["file"], "f PATH [ARGS...]", "load a program and set its arguments", 1, none,
      fun a ↦ .ok (.loadFile (a.words.headD "") a.words.tail)⟩,
    onNumber "att" "PID" "attach to a process" UInt32.size .attach,
    bare "det" "detach from the process" .detach,
    onNumber "fr" "LEVEL" "select a stack frame" UInt32.size .selectFrame,
    onText "p" ["print"] "EXPRESSION" "print an expression once" .evaluate,
    onText "w" [] "EXPRESSION" "watch an expression" .watch,
    onNumber "uw" "ID" "remove a watch" UInt64.size .unwatch,
    bare "ws" "list watches with their values" .listWatches,
    onText "mi" [] "TEXT" "send MI or CLI text to the debugger" .send,
    onText "log" [] "TEXT" "write a note to the session log" .note,
    onWord "help" "COMMAND" "list commands or describe one" .help,
    bare "q" "quit" .quit]

/-- The command that a word names. -/
def find (word : String) : Except ConsoleError Entry :=
  match all.find? (·.hasName word) with
  | some entry => .ok entry
  | none => .error (.unknown word)

/-! ### Help -/

/-- A command and what it does, on two lines. -/
def description (entry : Entry) : String :=
  entry.usage ++ "\n  " ++ entry.summary

/-- A text filled up with spaces to a width. -/
def padded (width : Nat) (s : String) : String :=
  s ++ String.ofList (List.replicate (width - s.length) ' ')

/-- All commands, a line for each, in two columns. -/
def listing : String :=
  let width := (all.map (·.usage.length)).foldl max 0
  "\n".intercalate (all.map fun entry ↦ padded width entry.usage ++ "  " ++ entry.summary)

/-- The description of a command, or the list of all. -/
def help : Option String → Except ConsoleError String
  | some word => (find word).map description
  | none => .ok listing

end Entry

/-- What a line asks for; a blank line asks for nothing. -/
def Action.ofLine (line : String) : Except ConsoleError (Option Action) :=
  match Text.nextWord? line.toList with
  | none => .ok none
  | some (word, rest) => do
    let entry ← Entry.find (String.ofList word)
    let arguments : Arguments := ⟨entry.name, Text.trim rest⟩
    if entry.accepts arguments.words.length then some <$> entry.read arguments
    else .error (.arity entry.usage)

end DebugLink
