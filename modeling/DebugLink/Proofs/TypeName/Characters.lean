import DebugLink.Proofs.TypeName.RoundTrip

/-!
The characters of spellings. A spelling holds no other characters than those that the lexer of types
takes (`isTypeChar_of_mem_text`). Without its markers it begins with a character of a word and ends
in one or in a closing bracket (`bounded_stem`), so trimming leaves it as it is.
-/

set_option autoImplicit false

namespace DebugLink.TypeName

/-! ### Which characters there are -/

/-- Whether the character may stand in the spelling of a type. -/
def isTypeChar (c : Char) : Bool :=
  isWordChar c || Symbol.isBlank c || [':', '<', '>', ',', '*', '&'].contains c

theorem isWhitespace_of_isWordChar {c : Char} (h : isWordChar c = true) :
    isWhitespace c = false := by
  have hall : ∀ n < 128, isWordChar (Char.ofNat n) = true →
      isWhitespace (Char.ofNat n) = false := by
    decide +kernel
  have hascii : c.toNat < 128 := by
    rw [isWordChar, Bool.or_eq_true, beq_iff_eq] at h
    rcases h with halphanum | rfl
    · exact Text.ascii_of_isAlphanum halphanum
    · decide
  exact Text.of_ascii (P := fun c ↦ isWordChar c = true → isWhitespace c = false) hall hascii h

/-- Among the characters of types, spaces and tabs are the only white space. -/
theorem isBlank_of_isTypeChar {c : Char} (h : isTypeChar c = true)
    (hspace : isWhitespace c = true) : Symbol.isBlank c = true := by
  have hmarks : [':', '<', '>', ',', '*', '&'].all (fun d ↦ !isWhitespace d) = true := by decide
  rw [isTypeChar, Bool.or_eq_true, Bool.or_eq_true] at h
  rcases h with (hword | hblank) | hmark
  · simp [isWhitespace_of_isWordChar hword] at hspace
  · exact hblank
  · have hblack := List.all_eq_true.mp hmarks c (List.contains_iff_mem.mp hmark)
    simp [hspace] at hblack

/-- An element is made of characters of types. -/
theorem exists_append_of_scan {chars rest : List Char} {kind : Option TypeSymbol} {text : String}
    (h : scan chars = some (kind, text, rest)) :
    ∃ read, chars = read ++ rest ∧ ∀ c ∈ read, isTypeChar c = true := by
  have hliterals : ∀ literal ∈ literals, literal.2.toList.all isTypeChar = true := by decide
  rw [scan, Option.or_eq_some_iff] at h
  rcases h with hliteral | ⟨-, hpattern⟩
  · obtain ⟨literal, hmem, hfound⟩ := List.exists_of_findSome?_eq_some hliteral
    obtain ⟨left, hfront, heq⟩ := Option.map_eq_some_iff.mp hfound
    cases heq
    exact ⟨literal.2.toList, (List.isPrefixOf?_eq_some_iff_append_eq.mp hfront).symm,
      List.all_eq_true.mp (hliterals literal hmem)⟩
  · cases chars with
    | nil => cases hpattern
    | cons c tail =>
      rw [scanPattern] at hpattern
      split_ifs at hpattern with hword hblank
      · cases hpattern
        refine ⟨c :: tail.takeWhile isWordChar, ?_, fun d hd ↦ ?_⟩
        · rw [List.cons_append, List.takeWhile_append_dropWhile]
        · have hchar : isWordChar d = true := by
            rcases List.mem_cons.mp hd with rfl | hrun
            · exact hword
            · exact List.mem_takeWhile_imp hrun
          simp [isTypeChar, hchar]
      · cases hpattern
        refine ⟨[c], rfl, fun d hd ↦ ?_⟩
        obtain rfl := List.mem_singleton.mp hd
        simp [isTypeChar, hblank]

/-- What falls into lexemes is made of characters of types. -/
theorem isTypeChar_of_lexes {offset : Nat} {chars : List Char} {lexemes : List (Lexeme TypeSymbol)}
    (h : lexer.Lexes 0 offset chars lexemes) : ∀ c ∈ chars, isTypeChar c = true := by
  induction h with
  | done => exact fun _ hmem ↦ nomatch hmem
  | lexeme hfirst _ ih | skipped hfirst _ ih =>
    obtain ⟨read, rfl, hread⟩ := exists_append_of_scan ((first?_eq_scan _).symm.trans hfirst)
    intro c hc
    rcases List.mem_append.mp hc with hfront | hrest
    · exact hread c hfront
    · exact ih c hrest

/-- A spelling is made of characters of types. -/
theorem isTypeChar_of_mem_text {ty : TypeName} (h : ty.Everywhere Spellable) :
    ∀ c ∈ ty.text.toList, isTypeChar c = true := by
  have hyields := legible_text h [] [] endsWords_nil .nil
  rw [List.append_nil] at hyields
  obtain ⟨lexemes, -, hlexes⟩ := hyields 0
  exact isTypeChar_of_lexes hlexes

/-! ### Where spellings begin and end -/

/-- The characters begin with one of a word, and end in one or in a closing bracket. -/
def Bounded (chars : List Char) : Prop :=
  (∃ c, chars.head? = some c ∧ isWordChar c = true) ∧
    ∃ c, chars.getLast? = some c ∧ (isWordChar c = true ∨ c = '>')

theorem bounded_word {text : String} (h : IsWord text) : Bounded text.toList := by
  obtain ⟨hne, hchars⟩ := h
  refine ⟨⟨text.toList.head hne, List.head?_eq_some_head hne, hchars _ (List.head_mem hne)⟩, ?_⟩
  exact ⟨text.toList.getLast hne, List.getLast?_eq_some_getLast hne,
    .inl (hchars _ (List.getLast_mem hne))⟩

theorem Bounded.append {first second : List Char} (hfirst : ∃ c, first.head? = some c ∧
    isWordChar c = true) (hsecond : ∃ c, second.getLast? = some c ∧
      (isWordChar c = true ∨ c = '>')) : Bounded (first ++ second) := by
  obtain ⟨c, hhead, hword⟩ := hfirst
  obtain ⟨d, hlast, hend⟩ := hsecond
  refine ⟨⟨c, ?_, hword⟩, ⟨d, ?_, hend⟩⟩
  · rw [List.head?_append, hhead]
    rfl
  · rw [List.getLast?_append, hlast]
    rfl

/-- Texts with separators between them begin as the first one and end as the last one. -/
theorem bounded_intercalate {separator : List Char} {items : List (List Char)} (hne : items ≠ [])
    (h : ∀ item ∈ items, Bounded item) : Bounded (separator.intercalate items) := by
  induction items with
  | nil => exact absurd rfl hne
  | cons item rest ih =>
    have hitem := h item List.mem_cons_self
    cases rest with
    | nil => rwa [List.intercalate_singleton]
    | cons next others =>
      have hrest := ih (List.cons_ne_nil next others)
        fun other hmem ↦ h other (List.mem_cons_of_mem item hmem)
      rw [List.intercalate_cons_cons, List.append_assoc]
      refine .append hitem.1 ?_
      obtain ⟨c, hlast, hend⟩ := hrest.2
      refine ⟨c, ?_, hend⟩
      rw [List.getLast?_append, hlast]
      rfl

theorem bounded_scopeText {scope : Scope TypeName} (h : IsName scope.name) :
    Bounded (scopeText scope).toList := by
  obtain ⟨name, arguments⟩ := scope
  have hname := bounded_word h.1
  cases arguments with
  | none => rwa [scopeText]
  | some arguments =>
    have hclosing : (bracketed (argumentTexts arguments)).toList.getLast? = some '>' := by
      rcases bracketed_cases (argumentTexts arguments) with htext | htext
      all_goals
        rw [htext, String.toList_append, List.getLast?_append]
        rfl
    rw [scopeText, String.toList_append]
    exact .append hname.1 ⟨'>', hclosing, .inr rfl⟩

/-- The spelling of a type without its markers. -/
def stem (ty : TypeName) : List Char :=
  (" ".intercalate (spelledWords ty.specifiers (ty.path.map scopeText))).toList

theorem toList_text (ty : TypeName) :
    ty.text.toList =
      ty.stem ++ if ty.declarators.isEmpty then [] else ' ' :: ty.declarators.map Marker.char := by
  rw [text_eq, spell_eq, String.toList_append, stem]
  split_ifs <;> simp

theorem bounded_stem {ty : TypeName} (h : ty.Spellable) : Bounded ty.stem := by
  have hscopes : ∀ chars ∈ (ty.path.map scopeText).map String.toList, Bounded chars := by
    simp only [List.mem_map, forall_exists_index, and_imp]
    rintro chars text scope hscope rfl rfl
    exact bounded_scopeText (h scope hscope).1
  rw [stem, String.toList_intercalate]
  refine bounded_intercalate ?_ fun chars hchars ↦ ?_
  · simpa using spelledWords_ne_nil ty.specifiers (ty.path.map scopeText)
  obtain ⟨text, htext, rfl⟩ := List.mem_map.mp hchars
  rw [spelledWords] at htext
  split_ifs at htext with hnone hempty
  · obtain rfl := List.mem_singleton.mp htext
    exact bounded_word (by decide)
  · obtain ⟨size, -, rfl⟩ := List.mem_map.mp (List.append_nil _ ▸ htext)
    exact bounded_word (isWord_size size)
  · rcases List.mem_append.mp htext with hsize | hname
    · obtain ⟨size, -, rfl⟩ := List.mem_map.mp hsize
      exact bounded_word (isWord_size size)
    · obtain rfl := List.mem_singleton.mp hname
      rw [String.toList_intercalate]
      refine bounded_intercalate (fun hnil ↦ hempty ?_) hscopes
      rw [List.isEmpty_iff, ← List.map_eq_nil_iff, hnil]

end DebugLink.TypeName
