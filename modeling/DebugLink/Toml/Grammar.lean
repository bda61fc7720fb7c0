import DebugLink.Parser.Basic
import DebugLink.Text.Numeral
import DebugLink.Toml.Decimal
import DebugLink.Toml.Document

/-!
The grammar of TOML 1.0, and reading a document.

    document := byte-order-mark? line (newline line)*
    line     := blanks (header | element | setting)? blanks comment?
    header   := "[" key "]"
    element  := "[[" key "]]"
    setting  := key "=" blanks value
    key      := part ("." part)*
    value    := string | boolean | array | table | moment | decimal | integer
    array    := "[" (value ("," value)* ","?)? "]"
    table    := "{" (setting ("," setting)*)? "}"

What has the form of a value may still stand for none, such as a number that is too large or a date
that no calendar has. Therefore the parsers of values yield options. The parts of a key are bounded
in number, and so are the brackets and braces around a value.
-/

set_option autoImplicit false

namespace DebugLink.Toml

/-- What opens a value that has other values in it. -/
inductive Opening
  | bracket | brace
  deriving DecidableEq, Repr

/-- The rules that are called by name: each goes on after what opens a value, up to its end, and
yields the value, if it stands for one. -/
abbrev NestedRule : Opening → Type := fun _ ↦ Option Node

/-- Parsers over the characters of a document. -/
abbrev Reader (α : Type) : Type 1 := Parser Char NestedRule α

/-- There are fewer openings around each other than this. -/
def nestingBound : Nat := 80

/-- A key has fewer parts than this. -/
def keyBound : Nat := 80

/-! ### Blanks, comments and line ends -/

def isBlank (c : Char) : Bool :=
  c = ' ' || c = '\t'

/-- Characters that may stand in comments and, with the exception of their marks, in strings. -/
def isPrintable (c : Char) : Bool :=
  c = '\t' || (0x20 ≤ c.toNat && c.toNat ≤ 0x7e) || 0x80 ≤ c.toNat

def blanks : Reader Unit :=
  (Parser.satisfy isBlank).zeroOrMore.ignore

def newline : Reader Unit :=
  (Parser.text "\n").ignore.either (Parser.text "\r\n").ignore

def comment : Reader Unit :=
  ((Parser.just '#').both (Parser.satisfy isPrintable).zeroOrMore).ignore

/-- What may stand between the values of an array. -/
def gap : Reader Unit :=
  ((Parser.satisfy isBlank).ignore.either (comment.optional.both newline).ignore).zeroOrMore.ignore

/-! ### Strings -/

def isHexDigit (c : Char) : Bool :=
  Numeral.isDigit 16 c

/-- The character of a number, if there is one. -/
def characterOf? (n : Nat) : Option Char :=
  if n < 0xd800 ∨ (0xdfff < n ∧ n < 0x110000) then some (Char.ofNat n) else none

/-- A character by its number, in a fixed count of hexadecimal digits after a mark. -/
def numbered (mark : Char) (digits : Nat) : Reader (Option Char) :=
  ((Parser.just mark).skipThen ((Parser.satisfy isHexDigit).several digits (some digits))).map
    fun ds ↦ Numeral.digits? 16 ds >>= characterOf?

/-- A letter that stands for a character after a backslash. -/
def letterEscape (letter : Char) (c : Char) : Reader (Option Char) :=
  (Parser.just letter).map fun _ ↦ some c

/-- A backslash and what it escapes. -/
def escape : Reader (Option Char) :=
  (Parser.just '\\').skipThen <|
    (letterEscape 'b' '\x08').either <| (letterEscape 't' '\t').either <|
    (letterEscape 'n' '\n').either <| (letterEscape 'f' '\x0c').either <|
    (letterEscape 'r' '\r').either <| (letterEscape '"' '"').either <|
    (letterEscape '\\' '\\').either <| (numbered 'u' 4).either (numbered 'U' 8)

/-- A character that stands for itself, the given marks excepted. -/
def plain (marks : List Char) : Reader (Option Char) :=
  (Parser.satisfy fun c ↦ isPrintable c && !marks.contains c).map some

/-- The text of characters, if each of them stands for one. -/
def textOf? (cs : List (Option Char)) : Option String :=
  (cs.mapM id).map String.ofList

/-- A string on one line. -/
def lineString (mark : Char) (character : Reader (Option Char)) : Reader (Option String) :=
  (((Parser.just mark).skipThen character.zeroOrMore).thenSkip (Parser.just mark)).map textOf?

/-- A string in double quotes. -/
def basicString : Reader (Option String) :=
  lineString '"' ((plain ['"', '\\']).either escape)

/-- A string in single quotes, where nothing is escaped. -/
def literalString : Reader (Option String) :=
  lineString '\'' (plain ['\''])

/-- A backslash at the end of a line, and the blanks and line ends after it: nothing. -/
def continuation : Reader (List (Option Char)) :=
  (((Parser.just '\\').both blanks).both
    (newline.both ((Parser.satisfy isBlank).ignore.either newline).zeroOrMore)).map fun _ ↦ []

/-- The end of a string over several lines: three marks. Up to two more before them belong to the
string. -/
def closing (mark : Char) : Reader (List (Option Char)) :=
  let marks (count : Nat) := List.replicate count mark
  ((Parser.literal (marks 5)).map fun _ ↦ (marks 2).map some).either <|
    ((Parser.literal (marks 4)).map fun _ ↦ (marks 1).map some).either <|
      (Parser.literal (marks 3)).map fun _ ↦ []

/-- A string that may go over several lines. A line end right after the opening marks is dropped,
and up to two marks in a row stand for themselves. -/
def blockString (mark : Char) (piece : Reader (List (Option Char))) : Reader (Option String) :=
  let piece := piece.either (newline.map fun _ ↦ [some '\n'])
  let marked := (((Parser.just mark).several 0 (some 2)).both piece).map
    fun found ↦ found.1.map some ++ found.2
  (((Parser.literal (List.replicate 3 mark)).both newline.optional).skipThen
    (marked.zeroOrMore.both (closing mark))).map
      fun found ↦ textOf? (found.1.flatten ++ found.2)

def basicBlock : Reader (Option String) :=
  blockString '"' <|
    ((plain ['"', '\\']).map fun c ↦ [c]).either <| continuation.either (escape.map fun c ↦ [c])

def literalBlock : Reader (Option String) :=
  blockString '\'' ((plain ['\'']).map fun c ↦ [c])

/-- A string of any form. -/
def string : Reader (Option String) :=
  basicBlock.either (basicString.either (literalBlock.either literalString))

/-! ### Numbers -/

/-- Digits of a base, with single underscores between them. -/
def digits (base : Nat) : Reader (List Char) :=
  let digit : Reader Char := Parser.satisfy (Numeral.isDigit base)
  (digit.both ((Parser.just '_').optional.skipThen digit).zeroOrMore).map
    fun found ↦ found.1 :: found.2

/-- Whether digits are the plain form of a number: without zeros in front. -/
def nonzeroDigit (c : Char) : Bool :=
  '1' ≤ c && c ≤ '9'

/-- A number in base ten without zeros in front. -/
def plainDigits : Reader (List Char) :=
  let more : Reader (List Char) := ((Parser.just '_').optional.skipThen
    (Parser.satisfy (Numeral.isDigit 10))).zeroOrMore
  (((Parser.satisfy nonzeroDigit).both more).map fun found ↦ found.1 :: found.2).either
    ((Parser.satisfy (Numeral.isDigit 10)).map fun d ↦ [d])

def sign : Reader (Option Char) :=
  (Parser.oneOf "+-").optional

/-- The numbers that an integer may have go up to this one and down to its negative. -/
def integerBound : Nat := Int64.size / 2

/-- An integer from its sign and its digits, if it is not too large. -/
def integerOf? (base : Nat) (negative : Bool) (ds : List Char) : Option Node :=
  match Numeral.digits? base ds with
  | some n =>
    if negative then if n ≤ integerBound then some (.integer (-n)) else none
    else if n < integerBound then some (.integer n) else none
  | none => none

/-- An integer in another base than ten, which its prefix tells. -/
def basedInteger (start : String) (base : Nat) : Reader (Option Node) :=
  ((Parser.text start).skipThen (digits base)).map (integerOf? base false)

def integer : Reader (Option Node) :=
  (basedInteger "0x" 16).either <| (basedInteger "0o" 8).either <| (basedInteger "0b" 2).either <|
    (sign.both plainDigits).map fun found ↦ integerOf? 10 (found.1 = some '-') found.2

/-- The power of ten after a number. -/
def exponent : Reader Int :=
  ((Parser.oneOf "eE").skipThen (sign.both (digits 10))).map fun found ↦
    let size : Int := (Numeral.digits? 10 found.2).getD 0
    if found.1 = some '-' then -size else size

/-- The digits after the point. -/
def fraction : Reader (List Char) :=
  (Parser.just '.').skipThen (digits 10)

/-- A number with a fraction or an exponent. One that rounds to infinity stands for none, unless it
is negative. -/
def finite : Reader (Option Node) :=
  let rest : Reader (List Char × Int) :=
    (fraction.both (exponent.optionalOr 0)).either (exponent.map fun e ↦ ([], e))
  ((sign.both plainDigits).both rest).mapTokens fun cs found ↦
    let ((sign, whole), fraction, exponent) := found
    let number := Decimal.ofDigits whole fraction exponent
    if sign ≠ some '-' ∧ number.roundsToInfinity then none else some (.decimal (String.ofList cs))

/-- A number with a fraction or an exponent, or one of the names for infinity and for no number. -/
def decimal : Reader (Option Node) :=
  finite.either <| (sign.both ((Parser.text "inf").either (Parser.text "nan"))).mapTokens
    fun cs _ ↦ some (.decimal (String.ofList cs))

/-! ### Dates and times -/

/-- A number of a fixed count of digits. -/
def fixed (count : Nat) : Reader Nat :=
  ((Parser.satisfy (Numeral.isDigit 10)).several count (some count)).map
    fun ds ↦ (Numeral.digits? 10 ds).getD 0

def isLeapYear (year : Nat) : Bool :=
  year % 4 = 0 && (year % 100 ≠ 0 || year % 400 = 0)

def daysInMonth (year month : Nat) : Nat :=
  if month = 2 then if isLeapYear year then 29 else 28
  else if month = 4 ∨ month = 6 ∨ month = 9 ∨ month = 11 then 30
  else 31

/-- Year, month and day; the result is whether there is such a day. -/
def date : Reader Bool :=
  ((((fixed 4).thenSkip (Parser.just '-')).both (fixed 2)).both
    ((Parser.just '-').skipThen (fixed 2))).map fun found ↦
      let ((year, month), day) := found
      1 ≤ month && month ≤ 12 && 1 ≤ day && day ≤ daysInMonth year month

/-- Hour, minute and second, perhaps with a fraction; the result is whether there is such a time. A
minute may have a leap second. -/
def time : Reader Bool :=
  ((((fixed 2).thenSkip (Parser.just ':')).both (fixed 2)).both
    (((Parser.just ':').skipThen (fixed 2)).thenSkip
      ((Parser.just '.').both (Parser.satisfy (Numeral.isDigit 10)).oneOrMore).optional)).map
        fun found ↦ found.1.1 ≤ 23 && found.1.2 ≤ 59 && found.2 ≤ 60

/-- How a time is shifted against universal time; the result is whether that is possible. -/
def shift : Reader Bool :=
  ((Parser.oneOf "Zz").map fun _ ↦ true).either <|
    ((Parser.oneOf "+-").skipThen (((fixed 2).thenSkip (Parser.just ':')).both (fixed 2))).map
      fun found ↦ found.1 ≤ 23 && found.2 ≤ 59

/-- A date, a time or both. -/
def moment : Reader (Option Node) :=
  let timeOfDay : Reader Bool := (((Parser.oneOf "Tt ").skipThen time).both
    (shift.optionalOr true)).map fun found ↦ found.1 && found.2
  let form : Reader Bool := ((date.both (timeOfDay.optionalOr true)).map
    fun found ↦ found.1 && found.2).either time
  form.mapTokens fun cs possible ↦
    if possible then some (.moment (String.ofList cs)) else none

/-! ### Keys, values and lines -/

def isBareCharacter (c : Char) : Bool :=
  c.isAlphanum || c = '_' || c = '-'

/-- One part of a key. -/
def keyPart : Reader (Option String) :=
  (((Parser.satisfy isBareCharacter).oneOrMore.map fun cs ↦ some (String.ofList cs)).either
    basicString).either literalString

/-- A key with its parts, and the blanks around it. -/
def key : Reader (Option (List String)) :=
  (((blanks.skipThen keyPart).thenSkip blanks).separatedBy (Parser.just '.')).map fun parts ↦
    if parts.length < keyBound then parts.mapM id else none

def boolean : Reader (Option Node) :=
  ((Parser.text "true").map fun _ ↦ some (.boolean true)).either
    ((Parser.text "false").map fun _ ↦ some (.boolean false))

def value : Reader (Option Node) :=
  (string.map (·.map Node.text)).either <| boolean.either <|
    ((Parser.just '[').skipThen (Parser.call .bracket)).either <|
    ((Parser.just '\x7b').skipThen (Parser.call .brace)).either <|
    moment.either <| decimal.either integer

/-- A key and its value. -/
def setting : Reader (Option (List String × Node)) :=
  ((key.thenSkip (Parser.just '=')).both (blanks.skipThen value)).map fun found ↦ do
    return (← found.1, ← found.2)

/-- An array after its bracket. -/
def array : Reader (Option Node) :=
  let comma : Reader Unit := ((Parser.just ',').both gap).ignore
  let items := ((value.thenSkip gap).separatedBy comma).thenSkip comma.optional
  ((gap.skipThen items.optional).thenSkip (Parser.just ']')).map
    fun found ↦ ((found.getD []).mapM id).map Node.array

/-- A table as a value, after its brace. -/
def inlineTable : Reader (Option Node) :=
  let settings := (setting.thenSkip blanks).separatedBy (Parser.just ',')
  ((blanks.skipThen settings.optional).thenSkip (Parser.just '\x7d')).map fun found ↦ do
    return .inline (← inlineOf? (← (found.getD []).mapM id))

/-- The grammar of documents. -/
def grammar : Grammar Char NestedRule :=
  (Grammar.empty.define .bracket array).define .brace inlineTable

/-- One line, without its end. -/
def line : Reader (Option Line) :=
  let element : Reader (Option Line) :=
    (((Parser.text "[[").skipThen key).thenSkip (Parser.text "]]")).map (·.map Line.element)
  let header : Reader (Option Line) :=
    (((Parser.just '[').skipThen key).thenSkip (Parser.just ']')).map (·.map Line.header)
  let assignment : Reader (Option Line) :=
    setting.map (·.map fun found ↦ Line.setting found.1 found.2)
  ((blanks.skipThen ((element.either (header.either assignment)).optionalOr (some .blank))).thenSkip
    blanks).thenSkip comment.optional

/-- All lines of a document, perhaps after a byte order mark. -/
def lines : Reader (List (Option Line)) :=
  (Parser.just '\ufeff').optional.skipThen (line.separatedBy newline)

/-- Reads a document. Rules are called only after an opening, so the depth of their calls is that of
the openings around each other. -/
def parse? (input : String) : Option (NamedTable Node) := do
  let found ← (grammar.parseAll (nestingBound - 1) lines input.toList).value?
  Document.ofLines? (← found.mapM id)

end DebugLink.Toml
