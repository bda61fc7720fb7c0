import DebugLink.Parser.Basic

/-!
Lexers made of parsers over characters. A lexer holds literal rules and pattern rules; at each
position the literals are tried before the patterns, each in the order they were given, and the
first rule that consumes a character wins. Skip rules consume text without producing a lexeme.
-/

set_option autoImplicit false

namespace DebugLink

/-- A classified piece of text. -/
structure Lexeme (κ : Type) where
  kind : κ
  /-- What the rule made of the text it consumed. -/
  text : String
  /-- The number of characters before the piece. -/
  offset : Nat
  deriving DecidableEq, Repr

/-- No rule of a lexer consumes anything at some position. -/
structure SyntaxError where
  /-- The number of characters before that position. -/
  offset : Nat
  /-- The text there, cut short. -/
  found : String
  deriving DecidableEq, Repr

/-- A rule of a lexer: the kind of its lexemes, or none for text to skip, and what it matches. -/
structure LexRule (κ : Type) {ι : Type} (ρ : ι → Type) where
  kind : Option κ
  matcher : Parser Char ρ String

/-- The rules of a lexer, in order, and the named rules that they may call. -/
structure Lexer (κ : Type) {ι : Type} (ρ : ι → Type) where
  literals : List (LexRule κ ρ)
  patterns : List (LexRule κ ρ)
  grammar : Grammar Char ρ

namespace Lexer

variable {κ ι α : Type} {ρ : ι → Type}

/-- A lexer without rules. -/
def empty (grammar : Grammar Char ρ) : Lexer κ ρ :=
  ⟨[], [], grammar⟩

/-- Adds a rule for a fixed text. -/
def literal (lexer : Lexer κ ρ) (kind : κ) (text : String) : Lexer κ ρ :=
  { lexer with literals := lexer.literals ++ [⟨some kind, Parser.text text⟩] }

/-- Adds a rule whose lexemes carry what a parser makes of the text. -/
def pattern (lexer : Lexer κ ρ) (kind : κ) (matcher : Parser Char ρ String) : Lexer κ ρ :=
  { lexer with patterns := lexer.patterns ++ [⟨some kind, matcher⟩] }

/-- Adds a rule for text that produces no lexeme. -/
def skip (lexer : Lexer κ ρ) (matcher : Parser Char ρ α) : Lexer κ ρ :=
  { lexer with
    patterns := lexer.patterns ++ [⟨none, matcher.mapTokens fun tokens _ ↦ String.ofList tokens⟩] }

/-- The most characters of unexpected text that an error shows. -/
def contextLength : Nat := 16

/-- The first rule that consumes at least one character, and its value. -/
def firstMatch (run : (rule : ι) → Step Char (ρ rule)) :
    List (LexRule κ ρ) → TokenStream Char → Option (Option κ × String) × TokenStream Char
  | [], s => (none, s)
  | rule :: others, s =>
    match rule.matcher.tryParse run s with
    | (.matched parsed, s') =>
      if parsed.tokens.isEmpty then firstMatch run others (s'.backtrack s.savepoint)
      else (some (rule.kind, parsed.value), s')
    | (_, s') => firstMatch run others s'

/-- Splits what is left of a stream. -/
def lexStream (lexer : Lexer κ ρ) (depth : Nat) (s : TokenStream Char) :
    Except SyntaxError (List (Lexeme κ)) :=
  match s.isEos with
  | (true, _) => .ok []
  | (false, filled) =>
    match firstMatch (lexer.grammar.run depth) (lexer.literals ++ lexer.patterns) filled with
    | (none, _) => .error ⟨s.position, String.ofList (s.rest.take contextLength)⟩
    | (some (kind, text), s') =>
      if s'.remaining < s.remaining then
        match lexStream lexer depth s' with
        | .error e => .error e
        | .ok lexemes =>
          match kind with
          | some kind => .ok (⟨kind, text, s.position⟩ :: lexemes)
          | none => .ok lexemes
      else .error ⟨s.position, String.ofList (s.rest.take contextLength)⟩
termination_by s.remaining

/-- Splits a text into lexemes, or says where no rule applies. -/
def lex (lexer : Lexer κ ρ) (depth : Nat) (input : String) :
    Except SyntaxError (List (Lexeme κ)) :=
  lexer.lexStream depth (TokenStream.ofList input.toList)

end Lexer

/-- One lexeme of the given kind, yielding its text. -/
def Parser.kind {κ ι : Type} {ρ : ι → Type} [DecidableEq κ] (expected : κ) :
    Parser (Lexeme κ) ρ String :=
  (Parser.satisfy fun lexeme ↦ lexeme.kind = expected).map Lexeme.text

end DebugLink
