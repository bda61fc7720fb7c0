import DebugLink.Proofs.Watch.Strings

/-!
The two readers of quoted strings. The lexer of lines scans a string up to its closing quote, and
the decoder of watches takes the text between two quotes apart. A text is one lexeme of the lexer,
quotes included, exactly if it spells bytes (`Symbol.lex_quoted_iff`), and then both readers find
these bytes. What it is to spell bytes is said here without either of them (`Inscribes`), with the
letters that name control characters listed and octal numbers taken as numbers
(`Printed.decoders_agree`).
-/

set_option autoImplicit false

namespace DebugLink

open DebugLink.Symbol

/-! ### What a text spells -/

/-- The letters that name control characters behind a backslash. -/
def controlLetters : List (Char × UInt8) :=
  [('n', 0x0a), ('t', 0x09), ('r', 0x0d), ('a', 0x07), ('b', 0x08), ('f', 0x0c), ('v', 0x0b),
    ('e', 0x1b)]

/-- The characters that stand for the digits in base eight. -/
def IsOctalDigit (c : Char) : Prop :=
  '0' ≤ c ∧ c ≤ '7'

instance : DecidablePred IsOctalDigit :=
  fun c ↦ inferInstanceAs (Decidable ('0' ≤ c ∧ c ≤ '7'))

/-- The characters, standing between quotes, spell the bytes: by characters that stand for
themselves, by letters that name control characters, by any other character behind a backslash, and
by octal numbers of one to three digits behind a backslash. A number of less than three digits has
no further digit behind it, and of a number too great for a byte only the low byte counts. -/
inductive Inscribes : List Char → List UInt8 → Prop
  | nil : Inscribes [] []
  | plain {c : Char} {chars : List Char} {bytes : List UInt8} :
    c ≠ '"' → c ≠ '\\' → Inscribes chars bytes →
      Inscribes (c :: chars) (String.utf8EncodeChar c ++ bytes)
  | letter {letter : Char} {byte : UInt8} {chars : List Char} {bytes : List UInt8} :
    (letter, byte) ∈ controlLetters → Inscribes chars bytes →
      Inscribes ('\\' :: letter :: chars) (byte :: bytes)
  | escaped {c : Char} {chars : List Char} {bytes : List UInt8} :
    c ∉ controlLetters.map Prod.fst → ¬ IsOctalDigit c → Inscribes chars bytes →
      Inscribes ('\\' :: c :: chars) (String.utf8EncodeChar c ++ bytes)
  | octal {digits chars : List Char} {bytes : List UInt8} :
    digits ≠ [] → digits.length ≤ 3 → (∀ d ∈ digits, IsOctalDigit d) →
      (digits.length = 3 ∨ ∀ c, chars.head? = some c → ¬ IsOctalDigit c) → Inscribes chars bytes →
        Inscribes ('\\' :: (digits ++ chars)) (UInt8.ofNat (Nat.ofDigitChars 8 digits 0) :: bytes)

theorem isOctal_iff {c : Char} : isOctal c = true ↔ IsOctalDigit c := by
  by_cases hascii : c.toNat < 128
  · have hall : ∀ n < 128, isOctal (Char.ofNat n) = true ↔
        '0' ≤ Char.ofNat n ∧ Char.ofNat n ≤ '7' := by decide +kernel
    exact Text.of_ascii (P := fun c ↦ isOctal c = true ↔ '0' ≤ c ∧ c ≤ '7') hall hascii
  · exact iff_of_false (fun hoctal ↦ hascii (ascii_of_isOctal hoctal))
      (fun hdigit ↦ hascii (Nat.lt_of_le_of_lt hdigit.2 (by decide)))

theorem isOctal_eq_false_iff {c : Char} : isOctal c = false ↔ ¬ IsOctalDigit c := by
  rw [← isOctal_iff, Bool.not_eq_true]

theorem octalValue_eq (digits : List Char) : octalValue digits = Nat.ofDigitChars 8 digits 0 := by
  simp only [octalValue, Nat.ofDigitChars_eq_foldl, Nat.mul_comm]

theorem utf8EncodeChar_unescapeLetter :
    ∀ entry ∈ controlLetters, String.utf8EncodeChar (unescapeLetter entry.1) = [entry.2] := by
  decide

theorem isOctal_controlLetters : ∀ entry ∈ controlLetters, isOctal entry.1 = false := by
  decide

theorem unescapeLetter_eq_self {c : Char} (h : c ∉ controlLetters.map Prod.fst) :
    unescapeLetter c = c := by
  unfold unescapeLetter
  split
  case h_9 => rfl
  all_goals exact absurd (by decide) h

/-- The lexer of lines and `Inscribes` agree on what is spelled. -/
theorem inscribes_iff_spells {chars : List Char} {bytes : List UInt8} :
    Inscribes chars bytes ↔ Spells chars bytes := by
  constructor
  · intro h
    induction h with
    | nil => exact .nil
    | plain hquote hbackslash _ ih => exact .plain hquote hbackslash ih
    | letter hmem _ ih =>
      have hspells := Spells.escaped (isOctal_controlLetters _ hmem) ih
      rwa [utf8EncodeChar_unescapeLetter _ hmem] at hspells
    | escaped hletter hoctal _ ih =>
      have hspells := Spells.escaped (isOctal_eq_false_iff.mpr hoctal) ih
      rwa [unescapeLetter_eq_self hletter] at hspells
    | octal hne hlength hdigits hends _ ih =>
      rw [← octalValue_eq]
      exact .octal hne hlength (fun d hd ↦ isOctal_iff.mpr (hdigits d hd))
        (hends.imp_right fun hstops c hc ↦ isOctal_eq_false_iff.mpr (hstops c hc)) ih
  · intro h
    induction h with
    | nil => exact .nil
    | plain hquote hbackslash _ ih => exact .plain hquote hbackslash ih
    | @escaped c _ _ hoctal _ ih =>
      by_cases hletter : c ∈ controlLetters.map Prod.fst
      · obtain ⟨entry, hmem, rfl⟩ := List.mem_map.mp hletter
        rw [utf8EncodeChar_unescapeLetter entry hmem]
        exact .letter hmem ih
      · rw [unescapeLetter_eq_self hletter]
        exact .escaped hletter (isOctal_eq_false_iff.mp hoctal) ih
    | octal hne hlength hdigits hends _ ih =>
      rw [octalValue_eq]
      exact .octal hne hlength (fun d hd ↦ isOctal_iff.mp (hdigits d hd))
        (hends.imp_right fun hstops c hc ↦ isOctal_eq_false_iff.mp (hstops c hc)) ih

/-! ### What the lexer reads -/

namespace Symbol

variable {chars rest : List Char} {bytes : List UInt8}

/-- An element that begins with a quote is a string. -/
theorem scan_quote (tail : List Char) :
    scan ('"' :: tail) =
      (scanQuoted tail).map fun found ↦ (some .quoted, Utf8.toText found.1, found.2) := by
  have hliteral : scanLiteral ('"' :: tail) = none := scanLiteral_of_not_begins (by decide) tail
  rw [scan, hliteral, Option.none_or, scanPattern, if_pos rfl]

/-- Only a blank is skipped. -/
theorem exists_blank_of_scan {text : String} (h : scan chars = some (none, text, rest)) :
    ∃ c, isBlank c = true ∧ chars = c :: rest := by
  rw [scan, Option.or_eq_some_iff] at h
  rcases h with hliteral | ⟨-, hpattern⟩
  · obtain ⟨literal, -, hfound⟩ := List.exists_of_findSome?_eq_some hliteral
    obtain ⟨left, -, heq⟩ := Option.map_eq_some_iff.mp hfound
    cases heq
  · cases chars with
    | nil => cases hpattern
    | cons c tail =>
      rw [scanPattern] at hpattern
      split_ifs at hpattern with hquote hdigit hname hblank
      · obtain ⟨found, -, heq⟩ := Option.map_eq_some_iff.mp hpattern
        cases heq
      · cases hpattern
      · cases hpattern
      · cases hpattern
        exact ⟨c, hblank, rfl⟩

/-- Where there are no lexemes, there are only blanks. -/
theorem isBlank_of_lexes_nil {offset : Nat} (h : lexer.Lexes 0 offset chars []) :
    ∀ c ∈ chars, isBlank c = true := by
  generalize hnone : ([] : List (Lexeme Symbol)) = lexemes at h
  induction h with
  | done => exact List.forall_mem_nil _
  | lexeme => cases hnone
  | skipped hfirst _ ih =>
    rw [first?_eq_scan] at hfirst
    obtain ⟨c, hblank, rfl⟩ := exists_blank_of_scan hfirst
    exact List.forall_mem_cons.mpr ⟨hblank, ih hnone⟩

/-- A text between quotes is a single string for the lexer exactly if it spells bytes, and the
string is read from these. -/
theorem lex_quoted_iff (b : String) (lexeme : Lexeme Symbol) :
    (lex ("\"" ++ b ++ "\"") = .ok [lexeme] ∧ lexeme.kind = .quoted) ↔
      ∃ bytes, Spells b.toList bytes ∧ lexeme = ⟨.quoted, Utf8.toText bytes, 0⟩ := by
  have hinput : ("\"" ++ b ++ "\"").toList = '"' :: (b.toList ++ ['"']) := by simp
  rw [lex, Lexer.lex_eq_ok_iff, hinput]
  constructor
  · rintro ⟨hlexes, -⟩
    cases hlexes with
    | skipped hfirst =>
      rw [first?_eq_scan, scan_quote] at hfirst
      obtain ⟨found, -, heq⟩ := Option.map_eq_some_iff.mp hfirst
      cases heq
    | lexeme hfirst hothers =>
      rw [first?_eq_scan, scan_quote] at hfirst
      obtain ⟨found, hscan, heq⟩ := Option.map_eq_some_iff.mp hfirst
      cases heq
      obtain ⟨inside, hinside, hspells⟩ := exists_spells_of_scanQuoted hscan
      have hblank := isBlank_of_lexes_nil hothers
      -- The quote at the end is no blank, so it is the one that closes the string.
      have hrest : found.2 = [] := by
        rcases List.eq_nil_or_concat found.2 with hnil | ⟨front, last, hfront⟩
        · exact hnil
        · rw [hfront, List.concat_eq_append, ← List.cons_append, ← List.append_assoc] at hinside
          obtain ⟨-, rfl⟩ := List.append_singleton_inj.mp hinside
          exact absurd (hblank '"' (by simp [hfront])) (by decide)
      rw [hrest] at hinside
      exact ⟨found.1, (List.append_singleton_inj.mp hinside).1 ▸ hspells, rfl⟩
  · rintro ⟨bytes, hspells, rfl⟩
    have hfirst : lexer.first? 0 ('"' :: (b.toList ++ ['"'])) =
        some (some .quoted, Utf8.toText bytes, []) := by
      rw [first?_eq_scan, scan_quote, scanQuoted_of_spells hspells]
      rfl
    exact ⟨.lexeme hfirst .done, rfl⟩

end Symbol

/-! ### The two readers -/

namespace Printed

open DebugLink.Symbol

/-- A text that is a single string for the lexer, quotes included, is read alike by the lexer and by
the decoder of watches. These texts are the ones that spell bytes, and both readers find the
characters that the bytes encode. -/
theorem decoders_agree (b : String) :
    (∀ lexeme, lex ("\"" ++ b ++ "\"") = .ok [lexeme] → lexeme.kind = .quoted →
      lexeme.text = Utf8.toText (unescape b.toList)) ∧
    (∀ bytes, Inscribes b.toList bytes →
      lex ("\"" ++ b ++ "\"") = .ok [⟨.quoted, Utf8.toText bytes, 0⟩] ∧
        Utf8.toText (unescape b.toList) = Utf8.toText bytes) ∧
    ((∃ lexeme, lex ("\"" ++ b ++ "\"") = .ok [lexeme] ∧ lexeme.kind = .quoted) ↔
      ∃ bytes, Inscribes b.toList bytes) := by
  refine ⟨fun lexeme hlex hkind ↦ ?_, fun bytes hinscribes ↦ ?_, ?_⟩
  · obtain ⟨bytes, hspells, rfl⟩ := (lex_quoted_iff b lexeme).mp ⟨hlex, hkind⟩
    rw [unescape_of_spells hspells]
  · have hspells := inscribes_iff_spells.mp hinscribes
    refine ⟨((lex_quoted_iff b _).mpr ⟨bytes, hspells, rfl⟩).1, ?_⟩
    rw [unescape_of_spells hspells]
  · simp only [lex_quoted_iff, inscribes_iff_spells]
    exact ⟨fun ⟨_, bytes, hspells, _⟩ ↦ ⟨bytes, hspells⟩,
      fun ⟨bytes, hspells⟩ ↦ ⟨_, bytes, hspells, rfl⟩⟩

/-- A letter as its two bytes, a parenthesis as a number of two digits, and a tab. -/
theorem decoders_agree_octal :
    lex "\"\\303\\251\\51\\t\"" = .ok [⟨.quoted, "\u00e9)\t", 0⟩] ∧
      Utf8.toText (unescape "\\303\\251\\51\\t".toList) = "\u00e9)\t" := by
  have hdigits : ∀ digits ∈ [['3', '0', '3'], ['2', '5', '1'], ['5', '1']],
      ∀ d ∈ digits, IsOctalDigit d := by
    simp [IsOctalDigit]
  have hshort : ∀ c, ['\\', 't'].head? = some c → ¬ IsOctalDigit c := by
    rintro c ⟨⟩
    decide
  have hinscribes : Inscribes "\\303\\251\\51\\t".toList [0xc3, 0xa9, 0x29, 0x09] :=
    @Inscribes.octal ['3', '0', '3'] _ _ (by simp) le_rfl (hdigits _ (by simp)) (.inl rfl)
      (@Inscribes.octal ['2', '5', '1'] _ _ (by simp) le_rfl (hdigits _ (by simp)) (.inl rfl)
        (@Inscribes.octal ['5', '1'] _ _ (by simp) (by simp) (hdigits _ (by simp)) (.inr hshort)
          (.letter (by decide) .nil)))
  have htext : Utf8.toText [0xc3, 0xa9, 0x29, 0x09] = "\u00e9)\t" := by decide +kernel
  obtain ⟨hlex, hunescape⟩ := (decoders_agree "\\303\\251\\51\\t").2.1 _ hinscribes
  rw [htext] at hlex hunescape
  exact ⟨hlex, hunescape⟩

end Printed

end DebugLink
