import DebugLink.Parser.Lexer
import DebugLink.Text.Whitespace
import DebugLink.TypeName.Basic

/-!
Reading type names, and their normal spelling.

    type       := prefix-word* ("::"? component ("::" component)*)? dropped* (marker dropped*)*
    component  := name ("<" type ("," type)* ">")?
    marker     := "*" | "&"

A prefix word is a size word, which is kept, or a word that is dropped: a qualifier, a sign, or the
keyword of an elaborated type. A name is any other word. Arrays, functions and anything else are
outside this grammar; their normal spelling only squeezes white space.
-/

set_option autoImplicit false

namespace DebugLink

/-- The kinds of lexical elements of a type. -/
inductive TypeSymbol
  | word | scope | less | greater | comma | star | ampersand
  deriving DecidableEq, Repr

namespace TypeName

/-- Words that say nothing about how a value is decoded. -/
def droppedWords : List String :=
  ["const", "volatile", "signed", "unsigned", "struct", "class", "union", "enum"]

/-- The size word that a text spells. -/
def sizeWord? : String → Option SizeWord
  | "short" => some .short
  | "long" => some .long
  | _ => none

/-- The one rule that is called by name yields a type. -/
abbrev TypeRule : Unit → Type := fun _ ↦ TypeName

/-- Parsers over the lexical elements of a type. -/
abbrev TypeParser (α : Type) : Type 1 := Parser (Lexeme TypeSymbol) TypeRule α

/-- The characters of words. -/
def wordChars : String :=
  "abcdefghijklmnopqrstuvwxyzABCDEFGHIJKLMNOPQRSTUVWXYZ0123456789_"

/-- The lexer of types. -/
def lexer : Lexer TypeSymbol (Empty.elim : Empty → Type) :=
  (Lexer.empty Grammar.empty)
    |>.literal .scope "::"
    |>.literal .less "<"
    |>.literal .greater ">"
    |>.literal .comma ","
    |>.literal .star "*"
    |>.literal .ampersand "&"
    |>.pattern .word (Parser.word wordChars)
    |>.skip (Parser.oneOf " \t")

/-- Whether a lexeme is a word that is dropped. -/
def isDropped (lexeme : Lexeme TypeSymbol) : Bool :=
  lexeme.kind = .word && droppedWords.contains lexeme.text

/-- Whether a lexeme is a size word. -/
def isSize (lexeme : Lexeme TypeSymbol) : Bool :=
  lexeme.kind = .word && (sizeWord? lexeme.text).isSome

/-- Whether a lexeme is a word that can be a name. -/
def isName (lexeme : Lexeme TypeSymbol) : Bool :=
  lexeme.kind = .word && !isDropped lexeme && !isSize lexeme

def name : TypeParser String :=
  (Parser.satisfy isName).map Lexeme.text

/-- A name and a list of types in angle brackets. -/
def templateComponent : TypeParser (Scope TypeName) :=
  (((name.thenSkip (Parser.kind .less)).both
    ((Parser.call () : TypeParser TypeName).separatedBy (Parser.kind .comma))).thenSkip
      (Parser.kind .greater)).map fun found ↦ ⟨found.1, some found.2⟩

def component : TypeParser (Scope TypeName) :=
  templateComponent.either (name.map fun n ↦ ⟨n, none⟩)

/-- A qualified name; a leading scope operator is dropped. -/
def qualifiedName : TypeParser (List (Scope TypeName)) :=
  (Parser.kind .scope).optional.skipThen (component.separatedBy (Parser.kind .scope))

/-- Words in front of the name: size words are kept. -/
def prefixWords : TypeParser (List SizeWord) :=
  (((Parser.satisfy isDropped).map fun _ ↦ (none : Option SizeWord)).either
    ((Parser.satisfy isSize).map fun lexeme ↦ sizeWord? lexeme.text)).zeroOrMore.map
      fun found ↦ found.filterMap id

/-- Dropped words behind the name or behind a marker. -/
def qualifiers : TypeParser Unit :=
  (Parser.satisfy isDropped).zeroOrMore.ignore

def marker : TypeParser Marker :=
  (((Parser.kind .star).map fun _ ↦ Marker.pointer).either
    ((Parser.kind .ampersand).map fun _ ↦ Marker.reference)).thenSkip qualifiers

/-- The definition of the rule for types. -/
def typeRule : TypeParser TypeName :=
  (((prefixWords.both qualifiedName.optional).thenSkip qualifiers).both marker.zeroOrMore).map
    fun found ↦ ⟨found.1.1, found.1.2.getD [], found.2⟩

def grammar : Grammar (Lexeme TypeSymbol) TypeRule :=
  Grammar.empty.define () typeRule

/-- The type that lexical elements spell; nothing at all spells no type. Every call of the rule for
types inside a type follows at least two elements, so their number bounds the depth of the calls. -/
def ofLexemes? (lexemes : List (Lexeme TypeSymbol)) : Option TypeName :=
  if lexemes.isEmpty then none
  else (grammar.parseAll (lexemes.length + 1) (Parser.call ()) lexemes).value?

/-- Reads a type. -/
def parse? (input : String) : Option TypeName :=
  match lexer.lex 0 input with
  | .ok lexemes => ofLexemes? lexemes
  | .error _ => none

/-- White space squeezed to single spaces, none at the ends. -/
def squeeze (input : String) : String :=
  " ".intercalate ((Text.words input.toList).map String.ofList)

/-- The normal spelling of a type. -/
def normalize (input : String) : String :=
  match parse? input with
  | some ty => ty.text
  | none => squeeze input

end TypeName

end DebugLink
