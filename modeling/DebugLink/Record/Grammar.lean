import DebugLink.Record.Basic
import DebugLink.Record.Lexeme
import DebugLink.Text.Escaped
import DebugLink.Text.Whitespace

/-!
The grammar of lines, and reading a record from a line.

    line    := (async | stream | result | prompt) line-end
    async   := token? ("*" | "=" | "+") identifier ("," results)?
    stream  := ("~" | "@" | "&") string
    result  := token? "^" identifier ("," results)?
    results := identifier "=" value ("," identifier "=" value)*
    value   := string | "{" results? "}" | "[" (values | results)? "]"
    values  := value ("," value)*

The rule for values is the only one that refers to itself.
-/

set_option autoImplicit false

namespace DebugLink

/-- Why a line holds no record. -/
inductive RecordError
  | unlexable (cause : SyntaxError)
  | noMatch (line : String)
  deriving DecidableEq, Repr

/-- The message of a lexer that found no rule. -/
def SyntaxError.message (e : SyntaxError) : String :=
  "syntax error at offset " ++ toString e.offset ++ ": unexpected " ++ Text.quoted e.found

/-- What is wrong with the line, in words. -/
def RecordError.message : RecordError → String
  | unlexable cause => "unlexable MI output: " ++ cause.message
  | noMatch line => "line does not match any MI record: " ++ Text.quoted line

namespace Record

/-- The one rule that is called by name yields a value. -/
abbrev ValueRule : Unit → Type := fun _ ↦ Value

/-- Parsers over the lexical elements of a line. -/
abbrev LineParser (α : Type) : Type 1 := Parser (Lexeme Symbol) ValueRule α

/-- A call of the rule for values. -/
def value : LineParser Value :=
  Parser.call ()

/-- A name, an equals sign and a value. -/
def namedValue : LineParser (String × Value) :=
  ((Parser.kind .identifier).thenSkip (Parser.kind .equals)).both value

/-- One or more named values. -/
def namedValues : LineParser (List (String × Value)) :=
  namedValue.separatedBy (Parser.kind .comma)

/-- One or more bare values. -/
def bareValues : LineParser (List Value) :=
  value.separatedBy (Parser.kind .comma)

/-- Named values in braces; a repeated name keeps its place and takes the later value. -/
def tupleValue : LineParser Value :=
  (((Parser.kind .leftBrace).skipThen namedValues.optional).thenSkip
    (Parser.kind .rightBrace)).map fun found ↦ .tuple (NamedTable.ofList (found.getD []))

/-- Bare values or named values in brackets. An empty list counts as one of bare values. -/
def listValue : LineParser Value :=
  (((Parser.kind .leftBracket).skipThen
    ((bareValues.map Value.values).either (namedValues.map Value.results)).optional).thenSkip
      (Parser.kind .rightBracket)).map (·.getD (.values []))

/-- The definition of the rule for values. -/
def valueRule : LineParser Value :=
  (((Parser.kind .quoted).map Value.text).either tupleValue).either listValue

/-- The grammar of lines. -/
def grammar : Grammar (Lexeme Symbol) ValueRule :=
  Grammar.empty.define () valueRule

/-- The digits of an optional command token. -/
def tokenDigits : LineParser (Option String) :=
  (Parser.kind .number).optional

/-- The token that digits spell. One that is too large was never issued and counts as missing. -/
def tokenOf (digits : Option String) : Option Token :=
  digits >>= Numeral.word64?

/-- The fields after the class of a record. -/
def trailingFields : LineParser Fields :=
  ((Parser.kind .comma).skipThen namedValues).optional.map fun found ↦
    NamedTable.ofList (found.getD [])

def noticeMark : LineParser Notice :=
  (((Parser.kind .star).map fun _ ↦ Notice.exec).either
    ((Parser.kind .equals).map fun _ ↦ Notice.notify)).either
      ((Parser.kind .plus).map fun _ ↦ Notice.status)

def asyncRecord : LineParser Record :=
  (((tokenDigits.both noticeMark).both (Parser.kind .identifier)).both trailingFields).map
    fun found ↦ .async found.1.1.2 (tokenOf found.1.1.1) found.1.2 found.2

def channelMark : LineParser Channel :=
  (((Parser.kind .tilde).map fun _ ↦ Channel.console).either
    ((Parser.kind .at).map fun _ ↦ Channel.target)).either
      ((Parser.kind .ampersand).map fun _ ↦ Channel.log)

def streamRecord : LineParser Record :=
  (channelMark.both (Parser.kind .quoted)).map fun found ↦ .stream found.1 found.2

def resultRecord : LineParser Record :=
  (((tokenDigits.thenSkip (Parser.kind .caret)).both (Parser.kind .identifier)).both
    trailingFields).map fun found ↦ .result (tokenOf found.1.1) found.1.2 found.2

def promptRecord : LineParser Record :=
  (Parser.kind .prompt).map fun _ ↦ .prompt

/-- A whole line. -/
def line : LineParser Record :=
  (((asyncRecord.either streamRecord).either resultRecord).either promptRecord).thenSkip
    (Parser.kind .lineEnd)

/-- The record that the lexical elements of a line form. Every call of the rule for values follows
at least one element, so their number bounds the depth of the calls. -/
def ofLexemes? (lexemes : List (Lexeme Symbol)) : Option Record :=
  (grammar.parseAll (lexemes.length + 1) line lexemes).value?

/-- A line with a line end, which is supplied if it is missing. -/
def terminated (input : String) : String :=
  match input.toList.getLast? with
  | some '\n' | some '\r' => input
  | _ => input ++ "\n"

/-- Reads the record on one line of output. -/
def parse (input : String) : Except RecordError Record :=
  match Symbol.lex (terminated input) with
  | .error cause => .error (.unlexable cause)
  | .ok lexemes =>
    match ofLexemes? lexemes with
    | some record => .ok record
    | none => .error (.noMatch (String.ofList (Text.trimEnd input.toList)))

end Record

end DebugLink
