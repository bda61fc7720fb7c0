import DebugLink.Session.Schedule
import DebugLink.Text.Numeral

/-!
A debugger that answers from a script. The reply to a command is the next of the replies that were
laid down in order, if any is left; otherwise that of the first rule whose pattern fits the command;
otherwise the reply for all other commands. In the lines of a reply some marks are replaced.
-/

set_option autoImplicit false

namespace DebugLink

/-- What a rule is for. -/
inductive CommandPattern
  /-- One command. -/
  | exactly (text : String)
  /-- All commands that begin alike. -/
  | beginning (text : String)
  deriving DecidableEq, Repr

namespace CommandPattern

/-- Reads a pattern: an asterisk at the end stands for anything. -/
def ofText (s : String) : CommandPattern :=
  if s.toList.getLast? = some '*' then beginning (String.ofList s.toList.dropLast) else exactly s

/-- What a command has after the part that the pattern fixes, if it fits. -/
def rest? : CommandPattern → String → Option String
  | exactly text, command => if text = command then some "" else none
  | beginning text, command =>
    (Text.dropBeginning? text.toList command.toList).map String.ofList

end CommandPattern

/-- What a scripted debugger will answer. -/
structure Script where
  /-- The replies to the next commands, the first one first. -/
  queue : List (List String)
  /-- The rules with their replies, the first one first. -/
  rules : List (CommandPattern × List String)
  /-- The reply to all other commands. -/
  otherwise : List String
  /-- How many variable objects were named so far. -/
  named : Nat
  deriving DecidableEq, Repr

namespace Script

/-- Replaces a mark everywhere in a text. -/
def substitute (mark value : List Char) : List Char → List Char
  | [] => []
  | c :: rest =>
    match mark, Text.dropBeginning? mark (c :: rest) with
    | _ :: others, some _ => value ++ substitute mark value (rest.drop others.length)
    | _, _ => c :: substitute mark value rest
termination_by cs => cs.length
decreasing_by
  · simp only [List.length_drop, List.length_cons]
    omega
  · simp

/-- Replaces the marks in a line: the token of the command, the name of a new variable object, and
what the command has after the part that its rule fixes. -/
def fill (token object rest line : String) : String :=
  String.ofList
    (substitute "$R".toList rest.toList
      (substitute "$V".toList object.toList
        (substitute "$T".toList token.toList line.toList)))

/-- Whether a line names a variable object. -/
def namesVariable : List Char → Bool
  | '$' :: 'V' :: _ => true
  | _ :: rest => namesVariable rest
  | [] => false

/-- The reply to a command before marks are replaced, what the command has after the part that its
rule fixes, and the script from then on. -/
def choose (script : Script) (command : String) : List String × String × Script :=
  match script.queue with
  | reply :: queue => (reply, "", { script with queue })
  | [] =>
    match script.rules.findSome? fun rule ↦ (rule.1.rest? command).map (rule.2, ·) with
    | some (reply, rest) => (reply, rest, script)
    | none => (script.otherwise, "", script)

/-- The reply to a line. The digits at its beginning are the token of the command. -/
def answer (line : String) (script : Script) : List String × Script :=
  let token := line.toList.takeWhile Char.isDigit
  let command := String.ofList (line.toList.drop token.length)
  let (reply, rest, script) := script.choose command
  let script :=
    if reply.any (namesVariable ·.toList) then { script with named := script.named + 1 }
    else script
  (reply.map (fill (String.ofList token) ("var" ++ toString script.named) rest), script)

/-- The debugger that answers from its script. -/
def debugger : Debugger Script :=
  ⟨answer⟩

/-- Puts rules in front of those there are. -/
def addRules (script : Script) (rules : List (CommandPattern × List String)) : Script :=
  { script with rules := rules ++ script.rules }

end Script

end DebugLink
