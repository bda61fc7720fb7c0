import DebugLink.Parser.Stream

/-!
Parsers over token streams. A `Parser` is a description: single tokens, fixed texts, sequence,
ordered choice, bounded repetition, a transform that sees the tokens read, and a call of a named
rule. `Parser.attempt` runs a description on a stream. An attempt that fails may leave the stream
part of the way through; every attempt on a component goes through `Step.rewinding`, which puts the
reader back, so a failed parser leaves no trace of what it read.

A `Grammar` names the rules that parsers may call. Calls are the only recursion, so running a
parser takes a bound on their depth, and an attempt that needs more depth says so instead of
failing.
-/

set_option autoImplicit false

namespace DebugLink

variable {τ ι α β : Type}

/-- A successful attempt: the tokens that were read and the value made of them. -/
structure Parsed (τ α : Type) where
  tokens : List τ
  value : α

/-- How an attempt ends. -/
inductive Outcome (τ α : Type)
  | matched (parsed : Parsed τ α)
  | mismatch
  /-- The bound on the depth of rule calls was reached. -/
  | tooDeep

/-- What an attempt does to a stream. -/
abbrev Step (τ α : Type) : Type :=
  TokenStream τ → Outcome τ α × TokenStream τ

namespace Outcome

/-- The value, if there is one. -/
def value? : Outcome τ α → Option α
  | matched parsed => some parsed.value
  | _ => none

end Outcome

namespace Step

/-- Runs a step and puts the reader back where it started unless the step matched. -/
def rewinding (step : Step τ α) : Step τ α := fun s ↦
  match step s with
  | (.matched parsed, s') => (.matched parsed, s')
  | (other, s') => (other, s'.backtrack s.savepoint)

/-- Runs a step over and over, at most `limit` times if there is a limit, until it fails or has
consumed nothing. A match that consumed nothing still counts, but is the last one. -/
def iterate (step : Step τ α) (limit : Option Nat) (s : TokenStream τ) :
    Outcome τ (List α) × TokenStream τ :=
  if limit = some 0 then (.matched ⟨[], []⟩, s)
  else
    match step.rewinding s with
    | (.tooDeep, s') => (.tooDeep, s')
    | (.mismatch, s') => (.matched ⟨[], []⟩, s')
    | (.matched first, s') =>
      if s'.remaining < s.remaining then
        match iterate step (limit.map (· - 1)) s' with
        | (.matched others, s'') =>
          (.matched ⟨first.tokens ++ others.tokens, first.value :: others.value⟩, s'')
        | (other, s'') => (other, s'')
      else (.matched ⟨first.tokens, [first.value]⟩, s')
termination_by s.remaining

end Step

/-- Descriptions of parsers over tokens `τ` that may call the rules of a grammar, where the rule
`i` yields a `ρ i`. The index is the type of the value that a match yields. -/
inductive Parser (τ : Type) {ι : Type} (ρ : ι → Type) : Type → Type 1
  /-- One token that passes a test. -/
  | satisfy (accepts : τ → Bool) : Parser τ ρ τ
  /-- A fixed sequence of tokens. -/
  | literal [DecidableEq τ] (text : List τ) : Parser τ ρ (List τ)
  /-- One parser after the other. -/
  | both {α β : Type} (first : Parser τ ρ α) (second : Parser τ ρ β) : Parser τ ρ (α × β)
  /-- The second parser is tried only where the first one fails. -/
  | either {α : Type} (first second : Parser τ ρ α) : Parser τ ρ α
  /-- Between `least` and `limit` matches in a row, as many as there are. -/
  | several {α : Type} (item : Parser τ ρ α) (least : Nat) (limit : Option Nat) :
      Parser τ ρ (List α)
  /-- A value computed from the tokens read and the value made of them. -/
  | mapTokens {α β : Type} (inner : Parser τ ρ α) (transform : List τ → α → β) : Parser τ ρ β
  /-- A rule of the grammar. -/
  | call (rule : ι) : Parser τ ρ (ρ rule)

namespace Parser

variable {ρ : ι → Type}

/-- Reads a fixed sequence token by token and stops at the first that differs. -/
def expect [DecidableEq τ] : List τ → TokenStream τ → Bool × TokenStream τ
  | [], s => (true, s)
  | wanted :: others, s =>
    match s.consume with
    | (some token, s') => if token = wanted then expect others s' else (false, s')
    | (none, s') => (false, s')

/-- Runs a parser once; `run` says what a call of a rule does. -/
def attempt (run : (rule : ι) → Step τ (ρ rule)) : {α : Type} → Parser τ ρ α → Step τ α
  | _, satisfy accepts => fun s ↦
    match s.consume with
    | (some token, s') =>
      if accepts token then (.matched ⟨[token], token⟩, s') else (.mismatch, s')
    | (none, s') => (.mismatch, s')
  | _, literal text => fun s ↦
    match expect text s with
    | (true, s') => (.matched ⟨text, text⟩, s')
    | (false, s') => (.mismatch, s')
  | _, both first second => fun s ↦
    match Step.rewinding (first.attempt run) s with
    | (.matched a, s') =>
      match Step.rewinding (second.attempt run) s' with
      | (.matched b, s'') => (.matched ⟨a.tokens ++ b.tokens, (a.value, b.value)⟩, s'')
      | (.mismatch, s'') => (.mismatch, s'')
      | (.tooDeep, s'') => (.tooDeep, s'')
    | (.mismatch, s') => (.mismatch, s')
    | (.tooDeep, s') => (.tooDeep, s')
  | _, either first second => fun s ↦
    match Step.rewinding (first.attempt run) s with
    | (.mismatch, s') => Step.rewinding (second.attempt run) s'
    | done => done
  | _, several item least limit => fun s ↦
    match Step.iterate (item.attempt run) limit s with
    | (.matched found, s') =>
      if found.value.length < least then (.mismatch, s') else (.matched found, s')
    | (other, s') => (other, s')
  | _, mapTokens inner transform => fun s ↦
    match Step.rewinding (inner.attempt run) s with
    | (.matched a, s') => (.matched ⟨a.tokens, transform a.tokens a.value⟩, s')
    | (.mismatch, s') => (.mismatch, s')
    | (.tooDeep, s') => (.tooDeep, s')
  | _, call rule => run rule

/-- Runs a parser, putting the reader back on failure. -/
def tryParse (run : (rule : ι) → Step τ (ρ rule)) {α : Type} (p : Parser τ ρ α) : Step τ α :=
  Step.rewinding (p.attempt run)

/-! ### Derived parsers -/

/-- A value computed from the value of a match. -/
def map (f : α → β) (p : Parser τ ρ α) : Parser τ ρ β :=
  p.mapTokens fun _ a ↦ f a

/-- One parser after the other, keeping the value of the first. -/
def thenSkip (p : Parser τ ρ α) (q : Parser τ ρ β) : Parser τ ρ α :=
  (p.both q).map Prod.fst

/-- One parser after the other, keeping the value of the second. -/
def skipThen (p : Parser τ ρ α) (q : Parser τ ρ β) : Parser τ ρ β :=
  (p.both q).map Prod.snd

/-- Drops the value. -/
def ignore (p : Parser τ ρ α) : Parser τ ρ Unit :=
  p.map fun _ ↦ ()

/-- Exactly the given token. -/
def just [DecidableEq τ] (token : τ) : Parser τ ρ τ :=
  satisfy (· = token)

/-- As many matches as there are, perhaps none. -/
def zeroOrMore (p : Parser τ ρ α) : Parser τ ρ (List α) :=
  p.several 0 none

/-- As many matches as there are, at least one. -/
def oneOrMore (p : Parser τ ρ α) : Parser τ ρ (List α) :=
  p.several 1 none

/-- A match if there is one; never fails. -/
def optional (p : Parser τ ρ α) : Parser τ ρ (Option α) :=
  (p.several 0 (some 1)).map List.getLast?

/-- A match if there is one, else the given value. -/
def optionalOr (p : Parser τ ρ α) (default : α) : Parser τ ρ α :=
  p.optional.map (·.getD default)

/-- One or more items with separators between them, keeping only the items. -/
def separatedBy (item : Parser τ ρ α) (separator : Parser τ ρ β) : Parser τ ρ (List α) :=
  (item.both (separator.skipThen item).zeroOrMore).map fun found ↦ found.1 :: found.2

/-- One character out of a set. -/
def oneOf {ρ : ι → Type} (chars : String) : Parser Char ρ Char :=
  satisfy fun c ↦ chars.toList.contains c

/-- One character that is not in a set. -/
def noneOf {ρ : ι → Type} (chars : String) : Parser Char ρ Char :=
  satisfy fun c ↦ !chars.toList.contains c

/-- A fixed text. -/
def text {ρ : ι → Type} (expected : String) : Parser Char ρ String :=
  (literal expected.toList).map String.ofList

/-- One or more characters out of a set. -/
def word {ρ : ι → Type} (chars : String) : Parser Char ρ String :=
  (oneOf chars).oneOrMore.map String.ofList

end Parser

/-- The rules that parsers may call; a rule without a definition matches nothing. -/
structure Grammar (τ : Type) {ι : Type} (ρ : ι → Type) where
  rule : (i : ι) → Option (Parser τ ρ (ρ i))

namespace Grammar

variable {ρ : ι → Type}

/-- The grammar in which no rule is defined. -/
def empty : Grammar τ ρ :=
  ⟨fun _ ↦ none⟩

/-- Defines a rule. Only the first definition of a rule takes effect. -/
def define [DecidableEq ι] (g : Grammar τ ρ) (i : ι) (p : Parser τ ρ (ρ i)) : Grammar τ ρ :=
  ⟨fun j ↦
    match g.rule j with
    | some defined => some defined
    | none => if h : i = j then some (h ▸ p) else none⟩

/-- Runs a rule with calls nested at most `depth` deep. -/
def run (g : Grammar τ ρ) : Nat → (i : ι) → Step τ (ρ i)
  | 0, _ => fun s ↦ (.tooDeep, s)
  | depth + 1, i =>
    match g.rule i with
    | some p => p.tryParse (g.run depth)
    | none => fun s ↦ (.mismatch, s)

/-- Runs a parser on a whole list of tokens; it must consume all of them. -/
def parseAll (g : Grammar τ ρ) (depth : Nat) (p : Parser τ ρ α) (tokens : List τ) :
    Outcome τ α :=
  match p.tryParse (g.run depth) (TokenStream.ofList tokens) with
  | (.matched parsed, s) => if s.isEos.1 then .matched parsed else .mismatch
  | (other, _) => other

end Grammar

end DebugLink
