import DebugLink.Proofs.Record.Lexemes
import DebugLink.TypeName.Grammar

/-!
The lexical elements of types, one at a time. `TypeName.scan` takes the first element off a list of
characters: a mark, a word as long as it can be, or a blank, which is skipped.
`TypeName.first?_eq_scan` says that the rules of the lexer find the same element. Blanks are the
same as in lines.
-/

set_option autoImplicit false

namespace DebugLink.TypeName

open DebugLink.Symbol (NoRule)

/-- Whether a word may hold the character. -/
def isWordChar (c : Char) : Bool :=
  c.isAlphanum || c == '_'

/-- A text that is one word. -/
def IsWord (text : String) : Prop :=
  text.toList ≠ [] ∧ ∀ c ∈ text.toList, isWordChar c = true

instance (text : String) : Decidable (IsWord text) :=
  decidable_of_iff (text.toList ≠ [] ∧ text.toList.all isWordChar = true)
    (and_congr_right fun _ ↦ List.all_eq_true)

/-- No word goes on with the characters. -/
def EndsWords (chars : List Char) : Prop :=
  ∀ c, chars.head? = some c → isWordChar c = false

/-- The fixed texts with their kinds, in the order in which they are tried. -/
def literals : List (TypeSymbol × String) :=
  [(.scope, "::"), (.less, "<"), (.greater, ">"), (.comma, ","), (.star, "*"), (.ampersand, "&")]

/-- The first fixed text that the characters begin with, and what follows it. -/
def scanLiteral (chars : List Char) : Option (Option TypeSymbol × String × List Char) :=
  literals.findSome? fun literal ↦
    (literal.2.toList.isPrefixOf? chars).map fun rest ↦ (some literal.1, literal.2, rest)

/-- The word or blank that the characters begin with, and what follows it. -/
def scanPattern : List Char → Option (Option TypeSymbol × String × List Char)
  | [] => none
  | c :: rest =>
    if isWordChar c then
      some (some .word, String.ofList (c :: rest.takeWhile isWordChar), rest.dropWhile isWordChar)
    else if Symbol.isBlank c then some (none, String.singleton c, rest)
    else none

/-- The first lexical element, and what follows it. -/
def scan (chars : List Char) : Option (Option TypeSymbol × String × List Char) :=
  (scanLiteral chars).or (scanPattern chars)

/-! ### The rules of the lexer -/

section Rules

variable {calls : (rule : Empty) → Reader Char (NoRule rule)}

theorem oneOf_wordChars : (Parser.oneOf wordChars : Parser Char NoRule Char) =
    .satisfy isWordChar := by
  have hchars : wordChars.toList =
      Text.charRange 'a' 26 ++ Text.charRange 'A' 26 ++ Text.charRange '0' 10 ++ ['_'] := by
    decide +kernel
  refine Parser.oneOf_eq_satisfy hchars (by decide +kernel) (by decide +kernel) fun c hc ↦ ?_
  simp only [isWordChar, Bool.or_eq_true, beq_iff_eq] at hc
  rcases hc with halphanum | rfl
  · exact Text.ascii_of_isAlphanum halphanum
  · decide

theorem lexer_literals : lexer.literals =
    literals.map fun literal ↦ ⟨some literal.1, Parser.text literal.2⟩ := rfl

theorem lexer_patterns : lexer.patterns =
    [⟨some .word, Parser.word wordChars⟩,
      ⟨none, (Parser.oneOf " \t").mapTokens fun tokens _ ↦ String.ofList tokens⟩] := rfl

theorem read_word_cons (c : Char) (rest : List Char) :
    (Parser.word wordChars : Parser Char NoRule String).read calls (c :: rest) =
      if isWordChar c then
        .matched (c :: rest.takeWhile isWordChar) (String.ofList (c :: rest.takeWhile isWordChar))
          (rest.dropWhile isWordChar)
      else .mismatch := by
  rw [Parser.word, Parser.read_map, oneOf_wordChars, Parser.read_oneOrMore_satisfy_cons]
  split_ifs <;> rfl

theorem readFirst_patterns (chars : List Char) :
    Lexer.readFirst calls lexer.patterns chars = scanPattern chars := by
  cases chars with
  | nil =>
    cases hfirst : Lexer.readFirst calls lexer.patterns [] with
    | none => rfl
    | some found =>
      obtain ⟨read, hne, hnil⟩ := Lexer.exists_append_of_readFirst (fun i ↦ i.elim) hfirst
      exact absurd (List.append_eq_nil_iff.mp hnil.symm).1 hne
  | cons c rest =>
    rw [lexer_patterns, scanPattern]
    simp only [Lexer.readFirst, read_word_cons, Symbol.read_blank_cons]
    split_ifs <;> rfl

end Rules

/-- The rules of the lexer find the first element. -/
theorem first?_eq_scan (chars : List Char) : lexer.first? 0 chars = scan chars := by
  rw [Lexer.first?, lexer_literals, Lexer.readFirst_literals _ (by decide), readFirst_patterns]
  rfl

/-! ### Elements in front of what follows -/

theorem scanLiteral_of_isWordChar {c : Char} (hc : isWordChar c = true) (rest : List Char) :
    scanLiteral (c :: rest) = none := by
  rw [scanLiteral, List.findSome?_eq_none_iff]
  have hbegins : ∀ literal ∈ literals, literal.2.toList.head?.map isWordChar = some false := by
    decide
  intro literal hmem
  have hfirst := hbegins literal hmem
  cases htext : literal.2.toList with
  | nil => simp [htext] at hfirst
  | cons first others =>
    have hne : first ≠ c := by
      rintro rfl
      simp [htext, hc] at hfirst
    simp [List.isPrefixOf?, hne]

/-- A word ends where no character of a word follows. -/
theorem scan_word {text : String} (h : IsWord text) {rest : List Char} (hends : EndsWords rest) :
    scan (text.toList ++ rest) = some (some .word, text, rest) := by
  obtain ⟨hne, hchars⟩ := h
  cases htext : text.toList with
  | nil => exact absurd htext hne
  | cons first others =>
    rw [htext] at hchars
    have hfirst := hchars first List.mem_cons_self
    have hothers : ∀ c ∈ others, isWordChar c = true :=
      fun c hc ↦ hchars c (List.mem_cons_of_mem first hc)
    obtain ⟨htake, hdrop⟩ := Text.run_append hothers hends
    rw [List.cons_append, scan, scanLiteral_of_isWordChar hfirst, Option.none_or, scanPattern,
      if_pos hfirst, htake, hdrop, ← htext, String.ofList_toList]

/-- A mark ends whatever follows. -/
theorem scan_literal {literal : TypeSymbol × String} (h : literal ∈ literals) (rest : List Char) :
    scan (literal.2.toList ++ rest) = some (some literal.1, literal.2, rest) := by
  simp only [literals, List.mem_cons, List.not_mem_nil, or_false] at h
  rcases h with rfl | rfl | rfl | rfl | rfl | rfl <;> rfl

theorem scan_space (rest : List Char) : scan (' ' :: rest) = some (none, " ", rest) := rfl

/-- What is found as a word is one. -/
theorem isWord_of_scan {chars rest : List Char} {text : String}
    (h : scan chars = some (some .word, text, rest)) : IsWord text := by
  have hkinds : ∀ literal ∈ literals, literal.1 ≠ .word := by decide
  rw [scan, Option.or_eq_some_iff] at h
  rcases h with hliteral | ⟨-, hpattern⟩
  · obtain ⟨literal, hmem, hfound⟩ := List.exists_of_findSome?_eq_some hliteral
    obtain ⟨left, -, heq⟩ := Option.map_eq_some_iff.mp hfound
    exact absurd (Option.some.inj (congrArg Prod.fst heq)) (hkinds literal hmem)
  · cases chars with
    | nil => cases hpattern
    | cons c tail =>
      rw [scanPattern] at hpattern
      split_ifs at hpattern with hword
      · cases hpattern
        rw [IsWord, String.toList_ofList]
        refine ⟨List.cons_ne_nil _ _, fun d hd ↦ ?_⟩
        rcases List.mem_cons.mp hd with rfl | hrun
        · exact hword
        · exact List.mem_takeWhile_imp hrun
      · cases hpattern

/-- Words are spelled by the characters of words. -/
theorem isWord_of_lexes {offset : Nat} {chars : List Char} {lexemes : List (Lexeme TypeSymbol)}
    (h : lexer.Lexes 0 offset chars lexemes) :
    ∀ lexeme ∈ lexemes, lexeme.kind = .word → IsWord lexeme.text := by
  induction h with
  | done => exact fun _ hmem ↦ nomatch hmem
  | lexeme hfirst _ ih =>
    intro lexeme hmem hkind
    rcases List.mem_cons.mp hmem with rfl | hothers
    · obtain rfl : _ = TypeSymbol.word := hkind
      exact isWord_of_scan ((first?_eq_scan _).symm.trans hfirst)
    · exact ih lexeme hothers hkind
  | skipped _ _ ih => exact ih

/-- What is found as anything but a word is one of the fixed texts. -/
theorem mem_literals_of_scan {chars rest : List Char} {kind : TypeSymbol} {text : String}
    (h : scan chars = some (some kind, text, rest)) (hkind : kind ≠ .word) :
    (kind, text) ∈ literals := by
  rw [scan, Option.or_eq_some_iff] at h
  rcases h with hliteral | ⟨-, hpattern⟩
  · obtain ⟨literal, hmem, hfound⟩ := List.exists_of_findSome?_eq_some hliteral
    obtain ⟨left, -, heq⟩ := Option.map_eq_some_iff.mp hfound
    cases heq
    exact hmem
  · cases chars with
    | nil => cases hpattern
    | cons c tail =>
      rw [scanPattern] at hpattern
      split_ifs at hpattern
      · cases hpattern
        exact absurd rfl hkind
      · cases hpattern

/-- Lexemes other than words are spelled by the fixed texts of their kinds. -/
theorem mem_literals_of_lexes {offset : Nat} {chars : List Char}
    {lexemes : List (Lexeme TypeSymbol)} (h : lexer.Lexes 0 offset chars lexemes) :
    ∀ lexeme ∈ lexemes, lexeme.kind ≠ .word → Lexer.content lexeme ∈ literals := by
  induction h with
  | done => exact fun _ hmem ↦ nomatch hmem
  | lexeme hfirst _ ih =>
    intro lexeme hmem hkind
    rcases List.mem_cons.mp hmem with rfl | hothers
    · exact mem_literals_of_scan ((first?_eq_scan _).symm.trans hfirst) hkind
    · exact ih lexeme hothers hkind
  | skipped _ _ ih => exact ih

end DebugLink.TypeName
