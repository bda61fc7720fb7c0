import DebugLink.Proofs.Record.Parse
import DebugLink.Proofs.Record.Spelling
import DebugLink.Proofs.Text.Utf8

/-!
Records as they are printed. A record is a sequence of lexical elements, and a line that shows it
has these elements in order, with spaces and tabs around them as one likes (`Spaced`). Strings may
also be spelled as one likes (`Shown`).
-/

set_option autoImplicit false

namespace DebugLink

/-- A lexical element that is to be printed. -/
structure Element where
  kind : Symbol
  /-- What the element stands for; for a string, what is between the quotes, not escaped. -/
  text : String
  deriving DecidableEq, Repr

namespace Element

/-- A character between the quotes of a string. -/
def escape : Char → List Char
  | '"' => ['\\', '"']
  | '\\' => ['\\', '\\']
  | '\n' => ['\\', 'n']
  | c => [c]

/-- The characters of an element. A string stands between quotes, everything else for itself. -/
def source (e : Element) : List Char :=
  if e.kind = .quoted then '"' :: (e.text.toList.flatMap escape ++ ['"']) else e.text.toList

end Element

def Notice.element : Notice → Element
  | exec => ⟨.star, "*"⟩
  | notify => ⟨.equals, "="⟩
  | status => ⟨.plus, "+"⟩

def Channel.element : Channel → Element
  | console => ⟨.tilde, "~"⟩
  | target => ⟨.at, "@"⟩
  | log => ⟨.ampersand, "&"⟩

mutual

/-- The lexical elements of a value: a string, a tuple in braces or a list in brackets. -/
def Value.elements : Value → List Element
  | .text s => [⟨.quoted, s⟩]
  | .tuple ⟨entries⟩ =>
    ⟨.leftBrace, "\x7b"⟩ :: ((namedElements entries).tail ++ [⟨.rightBrace, "\x7d"⟩])
  | .values items => ⟨.leftBracket, "["⟩ :: ((bareElements items).tail ++ [⟨.rightBracket, "]"⟩])
  | .results items => ⟨.leftBracket, "["⟩ :: ((namedElements items).tail ++ [⟨.rightBracket, "]"⟩])

/-- Values with a comma before each. -/
def bareElements : List Value → List Element
  | [] => []
  | v :: rest => ⟨.comma, ","⟩ :: (v.elements ++ bareElements rest)

/-- Named values with a comma before each. -/
def namedElements : List (String × Value) → List Element
  | [] => []
  | (name, v) :: rest =>
    ⟨.comma, ","⟩ :: ⟨.identifier, name⟩ :: ⟨.equals, "="⟩ :: (v.elements ++ namedElements rest)

end

/-- The digits of a token, if there is one. -/
def tokenElements (token : Option Token) : List Element :=
  match token with
  | some token => [⟨.number, toString token.toNat⟩]
  | none => []

/-- The lexical elements of a record. -/
def Record.elements : Record → List Element
  | stream channel text => [channel.element, ⟨.quoted, text⟩]
  | async notice token cls fields =>
    tokenElements token ++ notice.element :: ⟨.identifier, cls⟩ :: namedElements fields.entries
  | result token cls fields =>
    tokenElements token ++ ⟨.caret, "^"⟩ :: ⟨.identifier, cls⟩ :: namedElements fields.entries
  | prompt => [⟨.prompt, "(gdb)"⟩]

example : (Record.result (some 7) "done" ⟨[("a", .tuple ⟨[("b", .text "c\n")]⟩)]⟩).elements.flatMap
    Element.source = "7^done,a=\x7bb=\"c\\n\"\x7d".toList := by decide

/-- The characters show the elements in order, with spaces and tabs before, between and after
them. -/
inductive Spaced : List Element → List Char → Prop
  | done {blanks : List Char} : (∀ c ∈ blanks, c = ' ' ∨ c = '\t') → Spaced [] blanks
  | element {e : Element} {others : List Element} {blanks chars : List Char} :
    (∀ c ∈ blanks, c = ' ' ∨ c = '\t') → Spaced others chars →
      Spaced (e :: others) (blanks ++ e.source ++ chars)

/-! ### Strings in any spelling -/

/-- The characters stand for an element. A string stands between quotes, in any spelling, and
everything else for itself. -/
def Element.Shows (e : Element) (source : List Char) : Prop :=
  if e.kind = .quoted then
    ∃ inside, Spells inside (e.text.toList.flatMap String.utf8EncodeChar) ∧
      source = '"' :: (inside ++ ['"'])
  else source = e.text.toList

/-- The characters show the elements in order, with strings in any spelling, and with spaces and
tabs before, between and after the elements. -/
inductive Shown : List Element → List Char → Prop
  | done {blanks : List Char} : (∀ c ∈ blanks, c = ' ' ∨ c = '\t') → Shown [] blanks
  | element {e : Element} {others : List Element} {blanks source chars : List Char} :
    (∀ c ∈ blanks, c = ' ' ∨ c = '\t') → e.Shows source → Shown others chars →
      Shown (e :: others) (blanks ++ source ++ chars)

theorem Element.escapes_escape : Escapes escape := by
  intro c
  unfold escape
  split
  case h_1 => exact .inr ⟨'"', rfl, rfl, rfl⟩
  case h_2 => exact .inr ⟨'\\', rfl, rfl, rfl⟩
  case h_3 => exact .inr ⟨'n', rfl, rfl, rfl⟩
  case h_4 hquote hbackslash _ => exact .inl ⟨rfl, hquote, hbackslash⟩

/-- The usual spelling is one of them. -/
theorem Element.shows_source (e : Element) : e.Shows e.source := by
  unfold Shows source
  split_ifs
  · exact ⟨e.text.toList.flatMap escape, escapes_escape.spells e.text.toList, rfl⟩
  · rfl

theorem Spaced.shown {elements : List Element} {chars : List Char} (h : Spaced elements chars) :
    Shown elements chars := by
  induction h with
  | done hblanks => exact .done hblanks
  | @element e _ _ _ hblanks _ ih => exact .element hblanks e.shows_source ih

/-- The elements one right after the other. -/
theorem shown_flatMap_source (elements : List Element) :
    Shown elements (elements.flatMap Element.source) := by
  induction elements with
  | nil => exact .done fun _ hc ↦ nomatch hc
  | cons e others ih => exact .element (fun _ hc ↦ absurd hc List.not_mem_nil) e.shows_source ih

/-! ### What can be printed -/

/-- A letter or underscore, then letters, digits, underscores and hyphens. -/
def IsIdentifier (s : String) : Prop :=
  ∃ first rest, s.toList = first :: rest ∧ (first.isAlpha = true ∨ first = '_') ∧
    ∀ c ∈ rest, c.isAlphanum = true ∨ c = '_' ∨ c = '-'

/-- The values that can be told from their elements: names are identifiers, no tuple has a name
twice, and the empty list is one of bare values. -/
inductive Value.Printable : Value → Prop
  | text {s : String} : Printable (.text s)
  | tuple {fields : Fields} :
    fields.names.Nodup → (∀ pair ∈ fields.entries, IsIdentifier pair.1) →
      (∀ pair ∈ fields.entries, Printable pair.2) → Printable (.tuple fields)
  | values {items : List Value} : (∀ v ∈ items, Printable v) → Printable (.values items)
  | results {items : List (String × Value)} :
    items ≠ [] → (∀ pair ∈ items, IsIdentifier pair.1) →
      (∀ pair ∈ items, Printable pair.2) → Printable (.results items)

/-- The class of a record is an identifier, and its fields are as those of a printable tuple. -/
def Record.Printable : Record → Prop
  | stream _ _ => True
  | async _ _ cls fields => IsIdentifier cls ∧ (Value.tuple fields).Printable
  | result _ cls fields => IsIdentifier cls ∧ (Value.tuple fields).Printable
  | prompt => True

end DebugLink
