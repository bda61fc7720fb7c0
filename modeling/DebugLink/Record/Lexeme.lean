import DebugLink.Parser.Lexer
import DebugLink.Text.Utf8

/-!
The lexical elements of a line: punctuation, the prompt, line ends, quoted strings, command tokens
and identifiers, with spaces and tabs between them. A quoted string is a sequence of bytes, written
as characters, letter escapes and octal escapes, that is read as UTF-8 once it is complete.
-/

set_option autoImplicit false

namespace DebugLink

/-- The kinds of lexical elements of a line. -/
inductive Symbol
  | equals | star | plus | tilde | at | caret | ampersand
  | leftBrace | rightBrace | leftBracket | rightBracket | comma
  | prompt
  | lineEnd
  /-- A quoted string; the text of the lexeme is what it stands for. -/
  | quoted
  /-- A decimal command token. -/
  | number
  | identifier
  deriving DecidableEq, Repr

namespace Symbol

/-- No rule of the lexer refers to another, so its parsers call nothing. -/
abbrev NoRule : Empty → Type := Empty.elim

def letters : String := "abcdefghijklmnopqrstuvwxyzABCDEFGHIJKLMNOPQRSTUVWXYZ"

def digits : String := "0123456789"

def octalDigits : String := "01234567"

/-- The value of a list of octal digits. -/
def octalValue (ds : List Char) : Nat :=
  ds.foldl (fun value d ↦ value * 8 + (d.toNat - '0'.toNat)) 0

/-- The character that a backslash and this character stand for. -/
def unescapeLetter : Char → Char
  | 'n' => '\n'
  | 't' => '\t'
  | 'r' => '\r'
  | 'a' => '\x07'
  | 'b' => '\x08'
  | 'f' => '\x0c'
  | 'v' => '\x0b'
  | 'e' => '\x1b'
  | other => other

/-- A letter or underscore, then letters, digits, underscores and hyphens. -/
def identifierText : Parser Char NoRule String :=
  ((Parser.oneOf (letters ++ "_")).both
    (Parser.oneOf (letters ++ digits ++ "_-")).zeroOrMore).map fun found ↦
      String.ofList (found.1 :: found.2)

/-- A backslash and up to three octal digits: one byte. -/
def octalByte : Parser Char NoRule (List UInt8) :=
  ((Parser.just '\\').skipThen ((Parser.oneOf octalDigits).several 1 (some 3))).map fun ds ↦
    [UInt8.ofNat (octalValue ds)]

/-- A backslash and any character. -/
def escapedBytes : Parser Char NoRule (List UInt8) :=
  ((Parser.just '\\').skipThen (Parser.satisfy fun _ ↦ true)).map fun c ↦
    String.utf8EncodeChar (unescapeLetter c)

/-- A character that stands for itself. -/
def plainBytes : Parser Char NoRule (List UInt8) :=
  (Parser.noneOf "\"\\").map String.utf8EncodeChar

/-- A string between double quotes, with its escapes undone. -/
def quotedText : Parser Char NoRule String :=
  (((Parser.just '"').skipThen
    ((octalByte.either escapedBytes).either plainBytes).zeroOrMore).thenSkip
      (Parser.just '"')).map fun pieces ↦ Utf8.toText pieces.flatten

/-- The lexer of lines. A text that begins another one is listed after it. -/
def lexer : Lexer Symbol NoRule :=
  (Lexer.empty Grammar.empty)
    |>.literal .prompt "(gdb)"
    |>.literal .lineEnd "\r\n"
    |>.literal .lineEnd "\n"
    |>.literal .lineEnd "\r"
    |>.literal .equals "="
    |>.literal .star "*"
    |>.literal .plus "+"
    |>.literal .tilde "~"
    |>.literal .at "@"
    |>.literal .caret "^"
    |>.literal .ampersand "&"
    |>.literal .leftBrace "\x7b"
    |>.literal .rightBrace "\x7d"
    |>.literal .leftBracket "["
    |>.literal .rightBracket "]"
    |>.literal .comma ","
    |>.pattern .quoted quotedText
    |>.pattern .number (Parser.word digits)
    |>.pattern .identifier identifierText
    |>.skip (Parser.oneOf " \t")

/-- The lexical elements of a text. -/
def lex (input : String) : Except SyntaxError (List (Lexeme Symbol)) :=
  lexer.lex 0 input

end Symbol

end DebugLink
