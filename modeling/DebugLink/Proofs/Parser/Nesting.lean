import DebugLink.Proofs.Parser.Guarded
import DebugLink.Record.Grammar
import DebugLink.TypeName.Grammar

/-!
Lines and type names nest no deeper than they are long. In the grammar of lines a value begins with
a bracket or a brace before it calls for another one, and in the grammar of types a list of types
stands behind a name and an angle bracket, although a type itself may be nothing at all. So both
grammars are guarded, and reading a line or a type comes to an end with one nested call more than
there are lexical elements (`parsing_settles`).
-/

set_option autoImplicit false

namespace DebugLink

theorem Record.guarded_grammar : Record.grammar.Guarded := by
  rintro ⟨⟩ p hrule
  obtain rfl : Record.valueRule = p := Option.some.inj hrule
  rfl

theorem TypeName.guarded_grammar : TypeName.grammar.Guarded := by
  rintro ⟨⟩ p hrule
  obtain rfl : TypeName.typeRule = p := Option.some.inj hrule
  rfl

/-- A type may be nothing at all, and a list of types may hold such types. -/
example : TypeName.typeRule.consumes = false ∧ (TypeName.parse? "map<,set<>>").isSome := by
  decide +kernel

/-- Reading a line and reading a type come to an end on every input. Every lexical element takes a
character; every rule calls itself only where fewer elements are left, so its calls nest at most one
deeper than there are elements; every repetition stops; and with so much depth or more what is read
from the elements of an input is always the same, and never cut short. -/
theorem parsing_settles :
    Symbol.lexer.Settles ∧ TypeName.lexer.Settles ∧ Record.grammar.Settles ∧
      TypeName.grammar.Settles ∧
      (∀ input lexemes depth, Symbol.lex (Record.terminated input) = .ok lexemes →
        lexemes.length < depth →
          Record.grammar.parseAll depth Record.line lexemes ≠ .tooDeep ∧
            (Record.parse input).toOption =
              (Record.grammar.parseAll depth Record.line lexemes).value?) ∧
      ∀ input lexemes depth, TypeName.lexer.lex 0 input = .ok lexemes → lexemes.length < depth →
        TypeName.grammar.parseAll depth (Parser.call ()) lexemes ≠ .tooDeep ∧
          TypeName.parse? input =
            if lexemes.isEmpty then none
            else (TypeName.grammar.parseAll depth (Parser.call ()) lexemes).value? := by
  have hline := Grammar.settles_of_guarded Record.guarded_grammar
  have htype := Grammar.settles_of_guarded TypeName.guarded_grammar
  refine ⟨Symbol.lexer.settles_of_isEmpty, TypeName.lexer.settles_of_isEmpty, hline, htype, ?_, ?_⟩
  · intro input lexemes depth hlex hdepth
    obtain ⟨hends, hsame⟩ := hline.whole Record.line lexemes depth hdepth
    refine ⟨hends, ?_⟩
    rw [hsame, ← Record.ofLexemes?]
    unfold Record.parse
    rw [hlex]
    dsimp only
    cases Record.ofLexemes? lexemes <;> rfl
  · intro input lexemes depth hlex hdepth
    obtain ⟨hends, hsame⟩ := htype.whole (Parser.call ()) lexemes depth hdepth
    refine ⟨hends, ?_⟩
    rw [hsame]
    unfold TypeName.parse?
    rw [hlex]
    rfl

end DebugLink
