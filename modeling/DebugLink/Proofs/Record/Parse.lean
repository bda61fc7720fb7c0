import DebugLink.Proofs.Record.Lexemes
import DebugLink.Proofs.Record.Line

/-!
Which lines hold a record, and which record it is. `Record.parse_iff_derivesLine` is about every
line that the lexer accepts: the record that is read is the one that the lexemes of the line derive
in the grammar of `DerivesLine`, after a line end has been supplied where there was none, and if
they derive no record the line is reported as it stands.
-/

set_option autoImplicit false

namespace DebugLink

/-! ### Lexemes of texts -/

namespace Symbol

variable {lexemes : List (Lexeme Symbol)}

theorem lex_eq_ok_iff {input : String} :
    lex input = .ok lexemes ↔ lexer.Lexes 0 0 input.toList lexemes :=
  Lexer.lex_eq_ok_iff

/-- A line feed that is put after a text becomes one more lexeme. -/
theorem lexes_append_feed {offset : Nat} {chars : List Char}
    (h : lexer.Lexes 0 offset chars lexemes) (hlast : chars.getLast? ≠ some '\r') :
    lexer.Lexes 0 offset (chars ++ ['\n'])
      (lexemes ++ [⟨.lineEnd, "\n", offset + chars.length⟩]) := by
  have hrest : ∀ {chars rest : List Char} {kind : Option Symbol} {text : String},
      lexer.first? 0 chars = some (kind, text, rest) → chars.getLast? ≠ some '\r' →
        rest.getLast? ≠ some '\r' ∧
          (chars ++ ['\n']).length - (rest ++ ['\n']).length = chars.length - rest.length ∧
            rest.length ≤ chars.length := by
    intro chars rest kind text hfirst hlast
    obtain ⟨read, -, rfl⟩ := Lexer.exists_append_of_first? hfirst
    refine ⟨?_, ?_, ?_⟩
    · intro hreturn
      exact hlast (by rw [List.getLast?_append, hreturn]; rfl)
    · simp only [List.length_append]
      omega
    · rw [List.length_append]
      omega
  induction h with
  | @done offset =>
    have hfirst : lexer.first? 0 ['\n'] = some (some .lineEnd, "\n", []) := first?_eq_scan ['\n']
    exact .lexeme hfirst .done
  | @lexeme offset chars rest kind text lexemes hfirst _ ih =>
    obtain ⟨hlast', hoffset, hle⟩ := hrest hfirst hlast
    have hothers := ih hlast'
    rw [first?_eq_scan] at hfirst
    have hfirst' := (first?_eq_scan _).trans (scan_append_feed hfirst hlast)
    refine .lexeme hfirst' ?_
    rw [hoffset]
    rwa [show offset + chars.length = offset + (chars.length - rest.length) + rest.length by omega]
  | @skipped offset chars rest text lexemes hfirst _ ih =>
    obtain ⟨hlast', hoffset, hle⟩ := hrest hfirst hlast
    have hothers := ih hlast'
    rw [first?_eq_scan] at hfirst
    have hfirst' := (first?_eq_scan _).trans (scan_append_feed hfirst hlast)
    refine .skipped hfirst' ?_
    rw [hoffset]
    rwa [show offset + chars.length = offset + (chars.length - rest.length) + rest.length by omega]

end Symbol

namespace Record

theorem numbersSpelled_of_lexes {offset : Nat} {chars : List Char} {lexemes : List (Lexeme Symbol)}
    (h : Symbol.lexer.Lexes 0 offset chars lexemes) : NumbersSpelled lexemes := by
  induction h with
  | done => exact fun _ hmem ↦ nomatch hmem
  | @lexeme offset chars rest kind text lexemes hfirst _ ih =>
    intro found hmem hkind
    rcases List.mem_cons.mp hmem with rfl | hothers
    · obtain rfl : kind = .number := hkind
      exact Symbol.digits_of_scan ((Symbol.first?_eq_scan chars).symm.trans hfirst)
    · exact ih found hothers hkind
  | skipped _ _ ih => exact ih

/-- The lexemes of a line, with a line end supplied unless the line ends in one. -/
def withLineEnd (input : String) (lexemes : List (Lexeme Symbol)) : List (Lexeme Symbol) :=
  if input.toList.getLast? = some '\n' ∨ input.toList.getLast? = some '\r' then lexemes
  else lexemes ++ [⟨.lineEnd, "\n", input.length⟩]

theorem lex_terminated {input : String} {lexemes : List (Lexeme Symbol)}
    (h : Symbol.lex input = .ok lexemes) :
    Symbol.lex (terminated input) = .ok (withLineEnd input lexemes) := by
  rw [terminated, withLineEnd]
  split
  · rename_i hlast
    rwa [if_pos (Or.inl hlast)]
  · rename_i hlast
    rwa [if_pos (Or.inr hlast)]
  · rename_i hfeed hreturn
    rw [if_neg (not_or.mpr ⟨hfeed, hreturn⟩), Symbol.lex_eq_ok_iff, String.toList_append]
    have hsupplied := Symbol.lexes_append_feed (Symbol.lex_eq_ok_iff.mp h) hreturn
    rwa [Nat.zero_add, String.length_toList] at hsupplied

/-- A record is read from a line exactly if the lexemes of the line and its end derive it. -/
theorem parse_eq_ok_iff {input : String} {record : Record} :
    parse input = .ok record ↔
      ∃ lexemes, Symbol.lex (terminated input) = .ok lexemes ∧ DerivesLine lexemes record := by
  unfold parse
  cases hlex : Symbol.lex (terminated input) with
  | error cause => simp
  | ok lexemes =>
    have hspelled := numbersSpelled_of_lexes (Symbol.lex_eq_ok_iff.mp hlex)
    simp only [Except.ok.injEq, exists_eq_left', ← ofLexemes?_eq_some_iff hspelled]
    cases ofLexemes? lexemes <;> simp

/-- On a line that the lexer accepts, the record that is read is the one that its lexemes derive. If
they derive none, the line is reported without the white space at its end. -/
theorem parse_iff_derivesLine {input : String} {lexemes : List (Lexeme Symbol)}
    (h : Symbol.lex input = .ok lexemes) :
    (∀ record, parse input = .ok record ↔ DerivesLine (withLineEnd input lexemes) record) ∧
      ((¬ ∃ record, DerivesLine (withLineEnd input lexemes) record) →
        parse input = .error (.noMatch (String.ofList (Text.trimEnd input.toList)))) := by
  have hlex := lex_terminated h
  have hspelled := numbersSpelled_of_lexes (Symbol.lex_eq_ok_iff.mp hlex)
  have hmatched : ∀ record, ofLexemes? (withLineEnd input lexemes) = some record →
      parse input = .ok record := by
    intro record hfound
    simp only [parse, hlex, hfound]
  have hunmatched : ofLexemes? (withLineEnd input lexemes) = none →
      parse input = .error (.noMatch (String.ofList (Text.trimEnd input.toList))) := by
    intro hfound
    simp only [parse, hlex, hfound]
  constructor
  · intro record
    rw [← ofLexemes?_eq_some_iff hspelled]
    cases hfound : ofLexemes? (withLineEnd input lexemes) with
    | some found => rw [hmatched found hfound, Except.ok.injEq, Option.some.injEq]
    | none => simp [hunmatched hfound]
  · intro hnone
    cases hfound : ofLexemes? (withLineEnd input lexemes) with
    | some found => exact absurd ⟨found, (ofLexemes?_eq_some_iff hspelled).mp hfound⟩ hnone
    | none => exact hunmatched hfound

/-- The later of two fields named `a` stands where the first one stood. -/
theorem parse_repeated_field :
    parse "7^done,a=\x7b\x7d,a=[]" = .ok (.result (some 7) "done" ⟨[("a", .values [])]⟩) := by
  have hlex : Symbol.lex "7^done,a=\x7b\x7d,a=[]" = .ok [⟨.number, "7", 0⟩, ⟨.caret, "^", 1⟩,
      ⟨.identifier, "done", 2⟩, ⟨.comma, ",", 6⟩, ⟨.identifier, "a", 7⟩, ⟨.equals, "=", 8⟩,
      ⟨.leftBrace, "\x7b", 9⟩, ⟨.rightBrace, "\x7d", 10⟩, ⟨.comma, ",", 11⟩,
      ⟨.identifier, "a", 12⟩, ⟨.equals, "=", 13⟩, ⟨.leftBracket, "[", 14⟩,
      ⟨.rightBracket, "]", 15⟩] := by
    rw [Symbol.lex_eq_ok_iff]
    repeat refine .lexeme ((Symbol.first?_eq_scan _).trans rfl) ?_
    exact .done
  have htoken : DerivesToken [⟨.number, "7", 0⟩] (some 7) := .spelled rfl rfl
  have htuple : Derives .namedValue [⟨.identifier, "a", 7⟩, ⟨.equals, "=", 8⟩,
      ⟨.leftBrace, "\x7b", 9⟩, ⟨.rightBrace, "\x7d", 10⟩] ("a", .tuple .empty) :=
    .namedValue rfl rfl (.emptyTuple rfl rfl)
  have hlist : Derives .namedValue [⟨.identifier, "a", 12⟩, ⟨.equals, "=", 13⟩,
      ⟨.leftBracket, "[", 14⟩, ⟨.rightBracket, "]", 15⟩] ("a", .values []) :=
    .namedValue rfl rfl (.emptyList rfl rfl)
  have hcollapses : NamedTable.Collapses [("a", .tuple .empty), ("a", .values [])]
      (⟨[("a", .values [])]⟩ : Fields) := NamedTable.collapses_iff.mpr rfl
  have hcomma : (⟨.comma, ",", 11⟩ : Lexeme Symbol).kind = .comma := rfl
  have hnamed := Derives.moreNamedValues htuple hcomma (.lastNamedValue hlist)
  have hcomma' : (⟨.comma, ",", 6⟩ : Lexeme Symbol).kind = .comma := rfl
  have hfields := DerivesFields.listed hcomma' hnamed hcollapses
  have hmark : (⟨.caret, "^", 1⟩ : Lexeme Symbol).kind = .caret := rfl
  have hcls : (⟨.identifier, "done", 2⟩ : Lexeme Symbol).kind = .identifier := rfl
  have hending : (⟨.lineEnd, "\n", 16⟩ : Lexeme Symbol).kind = .lineEnd := rfl
  have hline := DerivesLine.mk (DerivesRecord.result htoken hmark hcls hfields) hending
  exact ((parse_iff_derivesLine hlex).1 _).mpr hline

end Record

end DebugLink
