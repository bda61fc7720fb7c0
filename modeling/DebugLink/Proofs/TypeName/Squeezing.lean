import DebugLink.Proofs.Text.Words
import DebugLink.Proofs.TypeName.Characters

/-!
Squeezing the white space of a type. No element goes across white space, so a text falls into the
elements of its pieces (`yields_append_iff`), and where spaces and tabs are the only white space the
squeezed text falls into the same elements as the text itself (`yields_squeezed_iff`). What lexemes
derive depends on their kinds and texts alone (`derives_of_content`), so both texts are read as the
same type, or neither as one (`parse?_squeeze`).
-/

set_option autoImplicit false

namespace DebugLink.TypeName

open Lexer (content)
open Text (Breaks Solid squeezed)

/-! ### White space between elements -/

/-- Whether characters begin with a text does not depend on what follows if none of its characters
comes next. -/
theorem isPrefixOf?_append {text tail : List Char} (h : ∀ c, tail.head? = some c → c ∉ text)
    (chars : List Char) :
    text.isPrefixOf? (chars ++ tail) = (text.isPrefixOf? chars).map (· ++ tail) := by
  induction text generalizing chars with
  | nil => rfl
  | cons wanted others ih =>
    cases chars with
    | nil =>
      cases tail with
      | nil => rfl
      | cons c rest =>
        have hne : wanted ≠ c := fun heq ↦ h c rfl (heq ▸ List.mem_cons_self)
        simp [List.isPrefixOf?, hne]
    | cons c rest =>
      have hothers := ih (fun d hd hmem ↦ h d hd (List.mem_cons_of_mem wanted hmem)) rest
      by_cases heq : wanted = c
      · simpa [List.isPrefixOf?, heq] using hothers
      · simp [List.isPrefixOf?, heq]

theorem scanLiteral_append {tail : List Char} (htail : Breaks tail) (chars : List Char) :
    scanLiteral (chars ++ tail) =
      (scanLiteral chars).map fun found ↦ (found.1, found.2.1, found.2.2 ++ tail) := by
  have hnone : ∀ literal ∈ literals, ∀ c, tail.head? = some c → c ∉ literal.2.toList := by
    have hblack : ∀ literal ∈ literals, literal.2.toList.all (fun c ↦ !isWhitespace c) = true := by
      decide
    intro literal hliteral c hc hmem
    have hletter := List.all_eq_true.mp (hblack literal hliteral) c hmem
    simp [htail c hc] at hletter
  unfold scanLiteral
  generalize literals = texts at hnone
  induction texts with
  | nil => rfl
  | cons literal others ih =>
    obtain ⟨hfirst, hothers⟩ := List.forall_mem_cons.mp hnone
    rw [List.findSome?_cons, List.findSome?_cons, isPrefixOf?_append hfirst]
    cases literal.2.toList.isPrefixOf? chars with
    | none => exact ih hothers
    | some rest => rfl

/-- An element is found no matter what follows behind white space. -/
theorem scan_append {chars tail : List Char} (hchars : chars ≠ []) (htail : Breaks tail) :
    scan (chars ++ tail) =
      (scan chars).map fun found ↦ (found.1, found.2.1, found.2.2 ++ tail) := by
  have hpattern : scanPattern (chars ++ tail) =
      (scanPattern chars).map fun found ↦ (found.1, found.2.1, found.2.2 ++ tail) := by
    cases chars with
    | nil => exact absurd rfl hchars
    | cons c rest =>
      have hhead : ∀ d, tail.head? = some d → isWordChar d = false := by
        intro d hd
        rw [Bool.eq_false_iff]
        intro hword
        have hspace := htail d hd
        rw [isWhitespace_of_isWordChar hword] at hspace
        cases hspace
      rw [List.cons_append, scanPattern, scanPattern, Text.takeWhile_append_of_head hhead,
        Text.dropWhile_append_of_head hhead]
      split_ifs <;> rfl
  rw [scan, scan, scanLiteral_append htail, hpattern]
  cases scanLiteral chars <;> rfl

/-- The elements of a text are those of what stands before white space, and then those of the
rest. -/
theorem yields_append_iff {tail : List Char} (htail : Breaks tail) {chars : List Char}
    {elements : List (TypeSymbol × String)} :
    lexer.Yields 0 (chars ++ tail) elements ↔
      ∃ front back, lexer.Yields 0 chars front ∧ lexer.Yields 0 tail back ∧
        elements = front ++ back := by
  induction hlength : chars.length using Nat.strong_induction_on generalizing chars elements with
  | _ length ih =>
    by_cases hchars : chars = []
    · subst hchars
      simp [Lexer.yields_nil_iff]
    · have hscan := scan_append hchars htail
      cases hfirst : scan chars with
      | none =>
        rw [hfirst] at hscan
        have hne : chars ++ tail ≠ [] := by simp [hchars]
        have hfirst' := (first?_eq_scan chars).trans hfirst
        have hwhole := (first?_eq_scan (chars ++ tail)).trans hscan
        constructor
        · exact fun h ↦ absurd h (Lexer.not_yields_of_first?_eq_none hne hwhole)
        · rintro ⟨front, back, h, -, -⟩
          exact absurd h (Lexer.not_yields_of_first?_eq_none hchars hfirst')
      | some found =>
        obtain ⟨kind, text, rest⟩ := found
        rw [hfirst] at hscan
        have hfirst' := (first?_eq_scan chars).trans hfirst
        have hwhole := (first?_eq_scan (chars ++ tail)).trans hscan
        have hshorter : rest.length < length := hlength ▸ Lexer.length_lt_of_first? hfirst'
        rw [Lexer.yields_iff_of_first? hwhole]
        simp only [Lexer.yields_iff_of_first? hfirst', ih _ hshorter rfl]
        constructor
        · rintro ⟨_, ⟨front, back, hfront, hback, rfl⟩, rfl⟩
          exact ⟨_, back, ⟨front, hfront, rfl⟩, hback, (List.append_assoc ..).symm⟩
        · rintro ⟨_, back, ⟨front, hfront, rfl⟩, hback, rfl⟩
          exact ⟨_, ⟨front, back, hfront, hback, rfl⟩, List.append_assoc ..⟩

/-! ### Squeezed texts -/

theorem yields_cons_iff {c : Char} (hc : Symbol.isBlank c = true) {chars : List Char}
    {elements : List (TypeSymbol × String)} :
    lexer.Yields 0 (c :: chars) elements ↔ lexer.Yields 0 chars elements := by
  have hscan : scan (c :: chars) = some (none, String.singleton c, chars) := by
    rw [Symbol.isBlank, Bool.or_eq_true, beq_iff_eq, beq_iff_eq] at hc
    rcases hc with rfl | rfl <;> rfl
  rw [Lexer.yields_iff_of_first? ((first?_eq_scan _).trans hscan)]
  simp

theorem yields_blanks_iff {blanks : List Char} (h : ∀ c ∈ blanks, Symbol.isBlank c = true)
    {chars : List Char} {elements : List (TypeSymbol × String)} :
    lexer.Yields 0 (blanks ++ chars) elements ↔ lexer.Yields 0 chars elements := by
  induction blanks with
  | nil => rw [List.nil_append]
  | cons c rest ih =>
    obtain ⟨hc, hrest⟩ := List.forall_mem_cons.mp h
    rw [List.cons_append, yields_cons_iff hc, ih hrest]

/-- Spaces and tabs are the only white space of a text. -/
def OnlyBlanks (chars : List Char) : Prop :=
  ∀ c ∈ chars, isWhitespace c = true → Symbol.isBlank c = true

instance (chars : List Char) : Decidable (OnlyBlanks chars) :=
  decidable_of_iff (chars.all (fun c ↦ !isWhitespace c || Symbol.isBlank c) = true) <| by
    simp [OnlyBlanks, Bool.or_eq_true, ← Bool.not_eq_true, imp_iff_not_or]

/-- A text falls into the same elements as what is left of it when its blanks are squeezed. -/
theorem yields_squeezed_iff {chars : List Char} (h : OnlyBlanks chars)
    {elements : List (TypeSymbol × String)} :
    lexer.Yields 0 (squeezed chars) elements ↔ lexer.Yields 0 chars elements := by
  induction chars using Text.words_induction generalizing elements with
  | blank chars hblank =>
    have hchars : ∀ c ∈ chars, Symbol.isBlank c = true := fun c hc ↦ h c hc (hblank c hc)
    have hnone : lexer.Yields 0 (chars ++ []) elements ↔ lexer.Yields 0 [] elements :=
      yields_blanks_iff hchars
    rw [List.append_nil] at hnone
    rw [Text.squeezed_of_blank hblank, hnone]
  | word gap word rest hgap hword hrest ih =>
    have hgapBlank : ∀ c ∈ gap, Symbol.isBlank c = true :=
      fun c hc ↦ h c (List.mem_append_left _ hc) (hgap c hc)
    have hrestBlank : OnlyBlanks rest :=
      fun c hc ↦ h c (List.mem_append_right _ (List.mem_append_right _ hc))
    have htail : ∀ {back}, lexer.Yields 0 (if Text.words rest = [] then [] else
        ' ' :: squeezed rest) back ↔ lexer.Yields 0 rest back := by
      intro back
      rw [← ih hrestBlank]
      split_ifs with hlast
      · rw [squeezed, hlast, List.intercalate_nil]
      · rw [yields_cons_iff (by decide)]
    have hbreaks : Breaks (if Text.words rest = [] then [] else ' ' :: squeezed rest) := by
      split_ifs
      · exact Text.breaks_nil
      · exact Text.breaks_cons Text.isWhitespace_space _
    rw [Text.squeezed_append hgap hword hrest, yields_append_iff hbreaks,
      yields_blanks_iff hgapBlank, yields_append_iff hrest]
    simp only [htail]

/-! ### Derivations from the same elements -/

section Content

variable {lexemes others : List (Lexeme TypeSymbol)}

theorem forall_of_content {p : Lexeme TypeSymbol → Bool}
    (hp : ∀ lexeme other, content lexeme = content other → p lexeme = p other)
    (hsame : others.map content = lexemes.map content) (h : ∀ lexeme ∈ lexemes, p lexeme = true) :
    ∀ lexeme ∈ others, p lexeme = true := by
  intro other hother
  have hmem : content other ∈ lexemes.map content := hsame ▸ List.mem_map_of_mem hother
  obtain ⟨lexeme, hlexeme, hcontent⟩ := List.mem_map.mp hmem
  rw [← hp lexeme other hcontent, h lexeme hlexeme]

variable {lexeme other : Lexeme TypeSymbol}

theorem isDropped_congr (h : content lexeme = content other) :
    isDropped lexeme = isDropped other := by
  obtain ⟨hkind, htext⟩ := Prod.mk.inj h
  rw [isDropped, isDropped, hkind, htext]

theorem isSize_congr (h : content lexeme = content other) : isSize lexeme = isSize other := by
  obtain ⟨hkind, htext⟩ := Prod.mk.inj h
  rw [isSize, isSize, hkind, htext]

theorem isPrefix_congr (h : content lexeme = content other) :
    isPrefix lexeme = isPrefix other := by
  rw [isPrefix, isPrefix, isDropped_congr h, isSize_congr h]

theorem isName_congr (h : content lexeme = content other) : isName lexeme = isName other := by
  obtain ⟨hkind, -⟩ := Prod.mk.inj h
  rw [isName, isName, isDropped_congr h, isSize_congr h, hkind]

theorem sizes_of_content (hsame : others.map content = lexemes.map content) :
    sizes others = sizes lexemes := by
  have hsizes : ∀ words : List (Lexeme TypeSymbol),
      sizes words = (words.map content).filterMap fun element ↦ sizeWord? element.2 := by
    intro words
    rw [List.filterMap_map]
    rfl
  rw [hsizes, hsame, ← hsizes]

theorem repeated_of_content {markers : List Marker}
    (h : Parser.Repeated SpellsMarker lexemes markers)
    (hsame : others.map content = lexemes.map content) :
    Parser.Repeated SpellsMarker others markers := by
  induction h generalizing others with
  | nil =>
    obtain rfl := List.map_eq_nil_iff.mp hsame
    exact .nil
  | @cons item rest marker markers hitem _ ih =>
    obtain ⟨mark, dropped, hmark, hdropped, rfl⟩ := hitem
    rw [List.cons_append, List.map_cons, List.map_append] at hsame
    obtain ⟨mark', left, rfl, hcontent, hleft⟩ := List.map_eq_cons_iff.mp hsame
    obtain ⟨dropped', rest', rfl, hdropped', hrest⟩ := List.map_eq_append_iff.mp hleft
    rw [← List.cons_append]
    refine .cons ⟨mark', dropped', ?_, ?_, rfl⟩ (ih hrest)
    · exact (congrArg Prod.fst hcontent).trans hmark
    · exact forall_of_content (fun _ _ ↦ isDropped_congr) hdropped' hdropped

/-- What lexemes derive does not depend on where they stand. -/
theorem derives_of_content {n : Nonterminal} {meaning : n.Meaning}
    (h : Derives n lexemes meaning) (hsame : others.map content = lexemes.map content) :
    Derives n others meaning := by
  induction h generalizing others with
  | unnamed hwords hmarks =>
    rw [List.map_append] at hsame
    obtain ⟨words, marks, rfl, hwords', hmarks'⟩ := List.map_eq_append_iff.mp hsame
    rw [← sizes_of_content hwords']
    exact .unnamed (forall_of_content (fun _ _ ↦ isPrefix_congr) hwords' hwords)
      (repeated_of_content hmarks hmarks')
  | named hwords hleading _ hdropped hmarks ih =>
    simp only [List.map_append] at hsame
    obtain ⟨words, left, rfl, hwords', hleft⟩ := List.map_eq_append_iff.mp hsame
    obtain ⟨leading, left, rfl, hleading', hleft⟩ := List.map_eq_append_iff.mp hleft
    obtain ⟨name, left, rfl, hname', hleft⟩ := List.map_eq_append_iff.mp hleft
    obtain ⟨dropped, marks, rfl, hdropped', hmarks'⟩ := List.map_eq_append_iff.mp hleft
    rw [← sizes_of_content hwords']
    refine .named (forall_of_content (fun _ _ ↦ isPrefix_congr) hwords' hwords) ?_ (ih hname')
      (forall_of_content (fun _ _ ↦ isDropped_congr) hdropped' hdropped)
      (repeated_of_content hmarks hmarks')
    rcases hleading with rfl | ⟨mark, hmark, rfl⟩
    · exact .inl (List.map_eq_nil_iff.mp hleading')
    · obtain ⟨mark', rfl, hcontent⟩ := List.map_eq_singleton_iff.mp hleading'
      exact .inr ⟨mark', (congrArg Prod.fst hcontent).trans hmark, rfl⟩
  | lastType _ ih => exact .lastType (ih hsame)
  | moreTypes _ hcomma _ ihItem ihOthers =>
    simp only [List.map_append] at hsame
    obtain ⟨front, last, rfl, hfront, hlast⟩ := List.map_eq_append_iff.mp hsame
    obtain ⟨item, middle, rfl, hitem, hmiddle⟩ := List.map_eq_append_iff.mp hfront
    obtain ⟨comma, rfl, hcontent⟩ := List.map_eq_singleton_iff.mp hmiddle
    exact .moreTypes (ihItem hitem) ((congrArg Prod.fst hcontent).trans hcomma) (ihOthers hlast)
  | plain hname =>
    obtain ⟨name, rfl, hcontent⟩ := List.map_eq_singleton_iff.mp hsame
    obtain ⟨-, htext⟩ := Prod.mk.inj hcontent
    rw [← htext]
    exact .plain ((isName_congr hcontent).trans hname)
  | template hname hopening _ hclosing ih =>
    rw [List.map_cons, List.map_cons, List.map_append] at hsame
    obtain ⟨name, left, rfl, hcontent, hleft⟩ := List.map_eq_cons_iff.mp hsame
    obtain ⟨opening, left, rfl, hless, hleft⟩ := List.map_eq_cons_iff.mp hleft
    obtain ⟨inner, last, rfl, hinner, hlast⟩ := List.map_eq_append_iff.mp hleft
    obtain ⟨closing, rfl, hgreater⟩ := List.map_eq_singleton_iff.mp hlast
    obtain ⟨-, htext⟩ := Prod.mk.inj hcontent
    rw [← htext]
    exact .template ((isName_congr hcontent).trans hname)
      ((congrArg Prod.fst hless).trans hopening) (ih hinner)
      ((congrArg Prod.fst hgreater).trans hclosing)
  | lastComponent _ ih => exact .lastComponent (ih hsame)
  | moreComponents _ hmark _ ihItem ihOthers =>
    simp only [List.map_append] at hsame
    obtain ⟨front, last, rfl, hfront, hlast⟩ := List.map_eq_append_iff.mp hsame
    obtain ⟨item, middle, rfl, hitem, hmiddle⟩ := List.map_eq_append_iff.mp hfront
    obtain ⟨mark, rfl, hcontent⟩ := List.map_eq_singleton_iff.mp hmiddle
    exact .moreComponents (ihItem hitem) ((congrArg Prod.fst hcontent).trans hmark) (ihOthers hlast)

end Content

/-- A type that is read from a text is read from any other that falls into the same elements. -/
theorem parse?_of_yields {input other : String} {ty : TypeName} (h : parse? input = some ty)
    (hsame : ∀ elements, lexer.Yields 0 input.toList elements →
      lexer.Yields 0 other.toList elements) : parse? other = some ty := by
  rw [parse?] at h
  split at h
  · rename_i lexemes hlex
    obtain ⟨hne, hderives⟩ := ofLexemes?_eq_some_iff.mp h
    obtain ⟨others, hothers, hcontent⟩ := Lexer.exists_lex_of_yields <|
      hsame _ (.of_lexes (Lexer.lex_eq_ok_iff.mp hlex))
    rw [parse?, hothers]
    refine ofLexemes?_eq_some_iff.mpr ⟨?_, derives_of_content hderives hcontent⟩
    rintro rfl
    exact hne (List.map_eq_nil_iff.mp hcontent.symm)
  · cases h

theorem toList_squeeze (input : String) : (squeeze input).toList = squeezed input.toList := by
  have hwords : (String.toList ∘ String.ofList : List Char → List Char) = id :=
    funext fun _ ↦ String.toList_ofList
  rw [squeeze, String.toList_intercalate, List.map_map, hwords, List.map_id]
  rfl

theorem squeeze_squeeze (input : String) : squeeze (squeeze input) = squeeze input := by
  rw [← String.toList_inj, toList_squeeze, toList_squeeze, Text.squeezed_squeezed]

/-- Where spaces and tabs are the only white space, squeezing it changes nothing about what is
read. -/
theorem parse?_squeeze {input : String} (h : OnlyBlanks input.toList) :
    parse? (squeeze input) = parse? input := by
  have hiff : ∀ elements, lexer.Yields 0 (squeeze input).toList elements ↔
      lexer.Yields 0 input.toList elements := by
    intro elements
    rw [toList_squeeze, yields_squeezed_iff h]
  refine Option.ext fun ty ↦ ⟨fun hread ↦ ?_, fun hread ↦ ?_⟩
  · exact parse?_of_yields hread fun elements ↦ (hiff elements).mp
  · exact parse?_of_yields hread fun elements ↦ (hiff elements).mpr

end DebugLink.TypeName
