import DebugLink.Proofs.TypeName.Completion
import DebugLink.Proofs.TypeName.Squeezing

/-!
When a normal spelling is normal itself. The spelling of a type that is read is one. A text that is
not read only has its white space squeezed, and squeezing takes any white space for a separator
while the lexer takes spaces and tabs alone. So a text with a line feed in it is not read, but what
is left of it can be, and may then have another normal spelling (`normalize_idempotent_iff`). A
second step always ends it.
-/

set_option autoImplicit false

namespace DebugLink.TypeName

variable {input : String}

/-- A text that is read has no white space but spaces and tabs. -/
theorem onlyBlanks_of_parse? {ty : TypeName} (h : parse? input = some ty) :
    OnlyBlanks input.toList := by
  rw [parse?] at h
  split at h
  · rename_i lexemes hlex
    have hchars := isTypeChar_of_lexes (Lexer.lex_eq_ok_iff.mp hlex)
    exact fun c hc hspace ↦ isBlank_of_isTypeChar (hchars c hc) hspace
  · cases h

/-- The normal spelling of a text that is read is read again, as the completed type. -/
theorem parse?_normalize {ty : TypeName} (h : parse? input = some ty) :
    parse? (normalize input) = some ty.completed := by
  rw [normalize_of_parse? h, parse?_of_text (spellable_of_parse? h)]

theorem normalize_normalize_of_parse? {ty : TypeName} (h : parse? input = some ty) :
    normalize (normalize input) = normalize input := by
  rw [normalize_of_parse? h, normalize_text (spellable_of_parse? h)]

/-- Where nothing is read from the squeezed text either, squeezing was all there was to do. -/
theorem normalize_squeeze_of_none (h : parse? (squeeze input) = none) :
    normalize (squeeze input) = squeeze input := by
  rw [normalize_of_parse?_eq_none h, squeeze_squeeze]

/-- The normal spelling is its own normal spelling exactly for the texts whose only white space is
spaces and tabs, and for those that, once squeezed, are no type or the spelling of one. The normal
spelling of the normal spelling is its own always. -/
theorem normalize_idempotent_iff (input : String) :
    (normalize (normalize input) = normalize input ↔
      OnlyBlanks input.toList ∨
        ∀ ty, parse? (squeeze input) = some ty → ty.text = squeeze input) ∧
    normalize (normalize (normalize input)) = normalize (normalize input) := by
  cases hread : parse? input with
  | some ty =>
    have hsame := normalize_normalize_of_parse? hread
    exact ⟨iff_of_true hsame (.inl (onlyBlanks_of_parse? hread)), congrArg normalize hsame⟩
  | none =>
    rw [normalize_of_parse?_eq_none hread]
    cases hagain : parse? (squeeze input) with
    | none =>
      have hsame := normalize_squeeze_of_none hagain
      exact ⟨iff_of_true hsame (.inr fun ty hty ↦ nomatch hty), congrArg normalize hsame⟩
    | some ty =>
      -- Had it spaces and tabs only, the text would be read as the squeezed one is.
      have hother : ¬ OnlyBlanks input.toList := by
        intro hblanks
        rw [parse?_squeeze hblanks, hread] at hagain
        cases hagain
      refine ⟨?_, normalize_normalize_of_parse? hagain⟩
      rw [normalize_of_parse? hagain]
      simp [hother]

/-- With a line feed in it, `const int` is not read as a type, and squeezed it is. -/
theorem not_always_idempotent :
    normalize "const\nint" = "const int" ∧ normalize "const int" = "int" ∧
      ¬ ∀ input, normalize (normalize input) = normalize input := by
  have hsqueezed : normalize "const\nint" = "const int" := by decide +kernel
  have hread : normalize "const int" = "int" := by decide +kernel
  refine ⟨hsqueezed, hread, fun h ↦ ?_⟩
  have hsame := h "const\nint"
  rw [hsqueezed, hread] at hsame
  exact absurd hsame (by decide)

end DebugLink.TypeName
