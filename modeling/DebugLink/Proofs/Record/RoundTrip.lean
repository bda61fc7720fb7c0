import DebugLink.Proofs.Record.Printing

/-!
Printed records are read back. `Record.parse_of_spaced` is about every record that can be printed,
every way of putting spaces and tabs between its elements, and every line end.

The elements are found in the characters one after the other, since each of them ends where the next
one begins (`yields_of_shown`), and the lexemes that are found derive the record that was printed
(`derives_of_elements`). That holds for strings in any spelling as well (`Record.parse_of_shown`).
-/

set_option autoImplicit false

namespace DebugLink

/-! ### Elements in characters -/

/-- The element that a lexeme is an occurrence of. -/
def Lexeme.element (lexeme : Lexeme Symbol) : Element :=
  ⟨lexeme.kind, lexeme.text⟩

/-- The characters fall into lexemes that are occurrences of the elements. -/
def Yields (chars : List Char) (elements : List Element) : Prop :=
  ∀ offset, ∃ lexemes : List (Lexeme Symbol), lexemes.map Lexeme.element = elements ∧
    Symbol.lexer.Lexes 0 offset chars lexemes

theorem yields_nil : Yields [] [] := fun _ ↦ ⟨[], rfl, .done⟩

/-- What the scan finds is the first element, and the others come from what is left. -/
theorem yields_of_scan {chars rest : List Char} {elements : List Element} {e : Element}
    (hscan : Symbol.scan chars = some (some e.kind, e.text, rest)) (hrest : Yields rest elements) :
    Yields chars (e :: elements) := by
  intro offset
  obtain ⟨lexemes, hlexemes, hlexes⟩ := hrest (offset + (chars.length - rest.length))
  refine ⟨⟨e.kind, e.text, offset⟩ :: lexemes, by rw [List.map_cons, hlexemes]; rfl, ?_⟩
  exact .lexeme ((Symbol.first?_eq_scan chars).trans hscan) hlexes

/-- Blanks yield no element. -/
theorem yields_blank {c : Char} (hc : c = ' ' ∨ c = '\t') {chars : List Char}
    {elements : List Element} (h : Yields chars elements) : Yields (c :: chars) elements := by
  have hscan : Symbol.scan (c :: chars) = some (none, String.singleton c, chars) := by
    rcases hc with rfl | rfl <;> rfl
  intro offset
  obtain ⟨lexemes, hlexemes, hlexes⟩ := h (offset + ((c :: chars).length - chars.length))
  exact ⟨lexemes, hlexemes, .skipped ((Symbol.first?_eq_scan _).trans hscan) hlexes⟩

/-- Any number of blanks yields no element. -/
theorem yields_blanks {blanks : List Char} (hblanks : ∀ c ∈ blanks, c = ' ' ∨ c = '\t')
    {chars : List Char} {elements : List Element} (h : Yields chars elements) :
    Yields (blanks ++ chars) elements := by
  induction blanks with
  | nil => exact h
  | cons c rest ih =>
    have hrest := ih fun d hd ↦ hblanks d (List.mem_cons_of_mem c hd)
    exact yields_blank (hblanks c List.mem_cons_self) hrest

/-! ### Where elements end -/

namespace Element

/-- A number or an identifier, which goes on as long as characters of it follow. -/
def IsWord (e : Element) : Prop :=
  e.kind = .number ∧ e.text.toList ≠ [] ∧ (∀ c ∈ e.text.toList, c.isDigit = true) ∨
    e.kind = .identifier ∧ IsIdentifier e.text

/-- A string or punctuation, which ends whatever follows. -/
def IsMark (e : Element) : Prop :=
  e.kind = .quoted ∨ (e.kind, e.text) ∈ Symbol.literals ∧ e.kind ≠ .lineEnd

end Element

/-- No word goes on with the characters. -/
def StopsWords (chars : List Char) : Prop :=
  ∀ c, chars.head? = some c → Symbol.continuesName c = false

/-- A letter or an underscore begins a name. -/
theorem startsName_of_char {c : Char} (h : c.isAlpha = true ∨ c = '_') :
    Symbol.startsName c = true := by
  simpa [Symbol.startsName] using h

/-- A letter, a digit, an underscore or a hyphen goes on with a name. -/
theorem continuesName_of_char {c : Char} (h : c.isAlphanum = true ∨ c = '_' ∨ c = '-') :
    Symbol.continuesName c = true := by
  simpa [Symbol.continuesName, or_assoc] using h

theorem continuesName_of_isDigit {c : Char} (h : c.isDigit = true) :
    Symbol.continuesName c = true := by
  simp [Symbol.continuesName, Char.isAlphanum, h]

/-- No name begins with a digit. -/
theorem not_isDigit_of_startsName {c : Char} (h : Symbol.startsName c = true) :
    c.isDigit = false := by
  have hnine : '9'.toNat = 57 := rfl
  have hlower : 'a'.toNat = 97 := rfl
  have hupper : 'A'.toNat = 65 := rfl
  rw [Symbol.startsName, Bool.or_eq_true, Text.isAlpha_iff_toNat, beq_iff_eq] at h
  rcases h with halpha | rfl
  · rw [Bool.eq_false_iff, ne_eq, Char.isDigit_iff_toNat]
    omega
  · rfl

/-- All characters of a word may stand inside a name. -/
theorem Element.IsWord.continuesName {e : Element} (h : e.IsWord) :
    ∀ c ∈ e.text.toList, Symbol.continuesName c = true := by
  intro c hc
  rcases h with ⟨-, -, hdigits⟩ | ⟨-, first, others, htext, hfirst, hothers⟩
  · exact continuesName_of_isDigit (hdigits c hc)
  · rw [htext] at hc
    rcases List.mem_cons.mp hc with rfl | hmem
    · refine continuesName_of_char (hfirst.imp ?_ Or.inl)
      intro halpha
      simp [Char.isAlphanum, halpha]
    · exact continuesName_of_char (hothers c hmem)

/-- A word ends where no character of a word follows. -/
theorem scan_word {e : Element} (he : e.IsWord) {rest : List Char} (hrest : StopsWords rest) :
    Symbol.scan (e.text.toList ++ rest) = some (some e.kind, e.text, rest) := by
  obtain ⟨kind, text⟩ := e
  refine Symbol.scan_of_scanPattern ?_
  rcases he with ⟨hkind, hne, hdigits⟩ | ⟨hkind, first, others, htext, hfirst, hothers⟩
  · obtain rfl : kind = .number := hkind
    have hstops : ∀ c, rest.head? = some c → c.isDigit = false := by
      intro c hc
      by_contra hdigit
      have hcontinues := continuesName_of_isDigit (Bool.not_eq_false _ ▸ hdigit)
      rw [hrest c hc] at hcontinues
      cases hcontinues
    cases htext : text.toList with
    | nil => exact absurd htext hne
    | cons first others =>
      have htext' : text.toList = first :: others := htext
      rw [htext'] at hdigits
      have hfirst := hdigits first List.mem_cons_self
      obtain ⟨htake, hdrop⟩ :=
        Text.run_append (fun c hc ↦ hdigits c (List.mem_cons_of_mem first hc)) hstops
      have hquote : first ≠ '"' := by
        rintro rfl
        cases hfirst
      rw [List.cons_append, Symbol.scanPattern, if_neg hquote, if_pos hfirst, htake, hdrop, ← htext,
        String.ofList_toList]
  · obtain rfl : kind = .identifier := hkind
    have hstart := startsName_of_char hfirst
    obtain ⟨htake, hdrop⟩ := Text.run_append (fun c hc ↦ continuesName_of_char (hothers c hc)) hrest
    have hquote : first ≠ '"' := by
      rintro rfl
      cases hstart
    have htext' : text.toList = first :: others := htext
    rw [htext', List.cons_append, Symbol.scanPattern, if_neg hquote,
      if_neg (Bool.eq_false_iff.mp (not_isDigit_of_startsName hstart)), if_pos hstart, htake,
      hdrop, ← htext', String.ofList_toList]

/-- Punctuation ends whatever follows. -/
theorem scan_literal {e : Element} (he : (e.kind, e.text) ∈ Symbol.literals)
    (hkind : e.kind ≠ .lineEnd) (rest : List Char) :
    Symbol.scan (e.text.toList ++ rest) = some (some e.kind, e.text, rest) := by
  obtain ⟨kind, text⟩ := e
  simp only [Symbol.literals, List.mem_cons, Prod.mk.injEq, List.not_mem_nil, or_false] at he
  rcases he with ⟨rfl, rfl⟩ | ⟨rfl, rfl⟩ | ⟨rfl, rfl⟩ | ⟨rfl, rfl⟩ | ⟨rfl, rfl⟩ | ⟨rfl, rfl⟩ |
    ⟨rfl, rfl⟩ | ⟨rfl, rfl⟩ | ⟨rfl, rfl⟩ | ⟨rfl, rfl⟩ | ⟨rfl, rfl⟩ | ⟨rfl, rfl⟩ | ⟨rfl, rfl⟩ |
    ⟨rfl, rfl⟩ | ⟨rfl, rfl⟩ | ⟨rfl, rfl⟩
  all_goals first | rfl | exact absurd rfl hkind

/-- No literal is a quoted text. -/
theorem kind_ne_quoted_of_literal {e : Element} (h : (e.kind, e.text) ∈ Symbol.literals) :
    e.kind ≠ .quoted := by
  have hkinds : ∀ literal ∈ Symbol.literals, literal.1 ≠ .quoted := by decide
  exact hkinds _ h

/-- A string or punctuation ends whatever follows. -/
theorem scan_mark {e : Element} (he : e.IsMark) {source : List Char} (hsource : e.Shows source)
    (rest : List Char) : Symbol.scan (source ++ rest) = some (some e.kind, e.text, rest) := by
  rcases he with hquoted | ⟨hliteral, hkind⟩
  · rw [Element.Shows, if_pos hquoted] at hsource
    obtain ⟨inside, hspells, rfl⟩ := hsource
    refine Symbol.scan_of_scanPattern ?_
    rw [List.cons_append, List.append_assoc, List.singleton_append, Symbol.scanPattern, if_pos rfl,
      Symbol.scanQuoted_of_spells hspells, Option.map_some, Utf8.toText_flatMap, hquoted]
  · rw [Element.Shows, if_neg (kind_ne_quoted_of_literal hliteral)] at hsource
    rw [hsource]
    exact scan_literal hliteral hkind rest

/-! ### Sequences of elements -/

/-- No word comes next after a word, so no element runs into another one. -/
inductive Legible : List Element → Prop
  | nil : Legible []
  | lastWord {e : Element} : e.IsWord → Legible [e]
  | mark {e : Element} {others : List Element} :
    e.IsMark → Legible others → Legible (e :: others)
  | word {e next : Element} {others : List Element} :
    e.IsWord → next.IsMark → Legible others → Legible (e :: next :: others)

/-- A mark may stand between any two sequences, because it ends the word before it. -/
theorem Legible.append_mark {elements others : List Element} (h : Legible elements) {e : Element}
    (he : e.IsMark) (hothers : Legible others) : Legible (elements ++ e :: others) := by
  induction h with
  | nil => exact .mark he hothers
  | lastWord hword => exact .word hword he hothers
  | mark hmark _ ih => exact .mark hmark ih
  | word hword hnext _ ih => exact .word hword hnext ih

/-- All elements of a legible sequence are marks or words. -/
theorem Legible.isMark_or_isWord {elements : List Element} (h : Legible elements) :
    ∀ e ∈ elements, e.IsMark ∨ e.IsWord := by
  induction h with
  | nil => exact fun _ hmem ↦ nomatch hmem
  | lastWord hword =>
    intro e hmem
    rw [List.mem_singleton.mp hmem]
    exact Or.inr hword
  | mark hmark _ ih =>
    intro e hmem
    rcases List.mem_cons.mp hmem with rfl | hothers
    · exact Or.inl hmark
    · exact ih e hothers
  | word hword hnext _ ih =>
    intro e hmem
    rcases List.mem_cons.mp hmem with rfl | hmore
    · exact Or.inr hword
    · rcases List.mem_cons.mp hmore with rfl | hothers
      · exact Or.inl hnext
      · exact ih e hothers

/-- A word is shown as its own text. -/
theorem Element.IsWord.eq_of_shows {e : Element} (h : e.IsWord) {source : List Char}
    (hsource : e.Shows source) : source = e.text.toList := by
  have hkind : e.kind ≠ .quoted := by
    rcases h with ⟨hkind, -⟩ | ⟨hkind, -⟩ <;> simp [hkind]
  rwa [Element.Shows, if_neg hkind] at hsource

/-- A blank ends a word. -/
theorem stopsWords_blanks {blanks : List Char} (h : ∀ c ∈ blanks, c = ' ' ∨ c = '\t')
    {rest : List Char} (hrest : StopsWords rest) : StopsWords (blanks ++ rest) := by
  cases blanks with
  | nil => exact hrest
  | cons c others =>
    rintro d hd
    obtain rfl : c = d := by simpa using hd
    rcases h c List.mem_cons_self with rfl | rfl <;> rfl

/-- A mark ends a word. -/
theorem stopsWords_mark {e : Element} (he : e.IsMark) {source : List Char}
    (hsource : e.Shows source) (rest : List Char) : StopsWords (source ++ rest) := by
  intro c hc
  by_cases hquoted : e.kind = .quoted
  · rw [Element.Shows, if_pos hquoted] at hsource
    obtain ⟨inside, -, rfl⟩ := hsource
    obtain rfl : '"' = c := by simpa using hc
    rfl
  · obtain ⟨hliteral, -⟩ := he.resolve_left hquoted
    have hhead := Symbol.beginsLiteral_of_mem _ hliteral
    rw [Element.Shows, if_neg hquoted] at hsource
    rw [hsource] at hc
    cases htext : e.text.toList with
    | nil => simp [htext] at hhead
    | cons first others =>
      rw [htext] at hc hhead
      obtain rfl : first = c := by simpa using hc
      have hfirst : Symbol.beginsLiteral first = true := by simpa using hhead
      exact (Symbol.classes_of_beginsLiteral hfirst).2.2.2.2

/-- A legible sequence of elements is found in characters that show it, if its last word does not
go on in what follows. -/
theorem yields_of_shown {elements others : List Element} {tail : List Char}
    (h : Legible elements) (hstops : StopsWords tail) (htail : Yields tail others)
    {chars : List Char} (hshown : Shown elements chars) :
    Yields (chars ++ tail) (elements ++ others) := by
  induction h generalizing chars with
  | nil =>
    obtain ⟨hblanks⟩ := hshown
    exact yields_blanks hblanks htail
  | lastWord he =>
    obtain _ | ⟨hblanks, hsource, hdone⟩ := hshown
    obtain ⟨hblanks'⟩ := hdone
    rw [he.eq_of_shows hsource, List.append_assoc, List.append_assoc]
    refine yields_blanks hblanks (yields_of_scan (scan_word he ?_) (yields_blanks hblanks' htail))
    exact stopsWords_blanks hblanks' hstops
  | mark he _ ih =>
    obtain _ | ⟨hblanks, hsource, hothers⟩ := hshown
    rw [List.append_assoc, List.append_assoc]
    exact yields_blanks hblanks (yields_of_scan (scan_mark he hsource _) (ih hothers))
  | word he hnext _ ih =>
    obtain _ | ⟨hblanks, hsource, hothers⟩ := hshown
    obtain _ | ⟨hblanks', hsource', hothers⟩ := hothers
    have hrest := yields_blanks hblanks' (yields_of_scan (scan_mark hnext hsource' _) (ih hothers))
    rw [he.eq_of_shows hsource]
    simp only [List.append_assoc]
    refine yields_blanks hblanks (yields_of_scan (scan_word he ?_) hrest)
    exact stopsWords_blanks hblanks' (stopsWords_mark hnext hsource' _)

/-! ### Values -/

theorem isMark_of_literal {e : Element} (h : (e.kind, e.text) ∈ Symbol.literals)
    (hkind : e.kind ≠ .lineEnd) : e.IsMark :=
  Or.inr ⟨h, hkind⟩

theorem isMark_comma : Element.IsMark ⟨.comma, ","⟩ := by
  refine isMark_of_literal ?_ ?_ <;> simp [Symbol.literals]

theorem isMark_equals : Element.IsMark ⟨.equals, "="⟩ := by
  refine isMark_of_literal ?_ ?_ <;> simp [Symbol.literals]

/-- A legible sequence may be enclosed by marks. -/
theorem legible_enclosed {opening closing : Element} {inner : List Element}
    (hopening : opening.IsMark) (hinner : Legible inner) (hclosing : closing.IsMark) :
    Legible (opening :: (inner ++ [closing])) :=
  .mark hopening (hinner.append_mark hclosing .nil)

/-- Legible values, separated by commas, are legible. -/
theorem legible_tail_bareElements {items : List Value} (h : ∀ v ∈ items, Legible v.elements) :
    Legible (bareElements items).tail := by
  induction items with
  | nil => exact .nil
  | cons v rest ih =>
    have hrest := ih fun w hw ↦ h w (List.mem_cons_of_mem v hw)
    have hv := h v List.mem_cons_self
    rw [bareElements, List.tail_cons]
    cases rest with
    | nil => rwa [bareElements, List.append_nil]
    | cons w others => exact hv.append_mark isMark_comma hrest

/-- Names with legible values, separated by commas, are legible. -/
theorem legible_tail_namedElements {pairs : List (String × Value)}
    (hnames : ∀ pair ∈ pairs, IsIdentifier pair.1)
    (h : ∀ pair ∈ pairs, Legible pair.2.elements) : Legible (namedElements pairs).tail := by
  induction pairs with
  | nil => exact .nil
  | cons pair rest ih =>
    have hrest := ih (fun p hp ↦ hnames p (List.mem_cons_of_mem pair hp))
      (fun p hp ↦ h p (List.mem_cons_of_mem pair hp))
    have hv := h pair List.mem_cons_self
    have hname := hnames pair List.mem_cons_self
    rw [namedElements, List.tail_cons]
    refine .word (Or.inr ⟨rfl, hname⟩) isMark_equals ?_
    cases rest with
    | nil => rwa [namedElements, List.append_nil]
    | cons p others => exact hv.append_mark isMark_comma hrest

/-- The elements of a printable value can be told apart. -/
theorem legible_elements {v : Value} (h : v.Printable) : Legible v.elements := by
  have hmark : ∀ {e : Element}, (e.kind, e.text) ∈ Symbol.literals → e.kind ≠ .lineEnd →
      e.IsMark := fun h hkind ↦ isMark_of_literal h hkind
  induction h with
  | text => exact .mark (Or.inl rfl) .nil
  | @tuple fields _ hnames _ ih =>
    obtain ⟨entries⟩ := fields
    exact legible_enclosed (hmark (by simp [Symbol.literals]) (by simp))
      (legible_tail_namedElements hnames ih) (hmark (by simp [Symbol.literals]) (by simp))
  | values _ ih =>
    exact legible_enclosed (hmark (by simp [Symbol.literals]) (by simp))
      (legible_tail_bareElements ih) (hmark (by simp [Symbol.literals]) (by simp))
  | results _ hnames _ ih =>
    exact legible_enclosed (hmark (by simp [Symbol.literals]) (by simp))
      (legible_tail_namedElements hnames ih) (hmark (by simp [Symbol.literals]) (by simp))

namespace Record

/-- The elements of some values, separated by commas, are derived if those of each value are. -/
theorem derives_of_bareElements {items : List Value} (hne : items ≠ [])
    (h : ∀ v ∈ items, ∀ lexemes : List (Lexeme Symbol),
      lexemes.map Lexeme.element = v.elements → Derives .value lexemes v)
    {lexemes : List (Lexeme Symbol)}
    (hlexemes : lexemes.map Lexeme.element = (bareElements items).tail) :
    Derives .values lexemes items := by
  induction items generalizing lexemes with
  | nil => exact absurd rfl hne
  | cons v rest ih =>
    have hv := h v List.mem_cons_self
    rw [bareElements, List.tail_cons] at hlexemes
    cases rest with
    | nil =>
      rw [bareElements, List.append_nil] at hlexemes
      exact .lastValue (hv lexemes hlexemes)
    | cons w others =>
      obtain ⟨first, more, rfl, hfirst, hmore⟩ := List.map_eq_append_iff.mp hlexemes
      rw [bareElements] at hmore
      obtain ⟨comma, last, rfl, hcomma, hlast⟩ := List.map_eq_cons_iff.mp hmore
      have hrest := ih (List.cons_ne_nil w others)
        (fun u hu ↦ h u (List.mem_cons_of_mem v hu)) hlast
      have hderives := Derives.moreValues (hv first hfirst) (congrArg Element.kind hcomma) hrest
      simpa using hderives

/-- The elements of some named values, separated by commas, are derived if those of each value are.
-/
theorem derives_of_namedElements {pairs : List (String × Value)} (hne : pairs ≠ [])
    (h : ∀ pair ∈ pairs, ∀ lexemes : List (Lexeme Symbol),
      lexemes.map Lexeme.element = pair.2.elements → Derives .value lexemes pair.2)
    {lexemes : List (Lexeme Symbol)}
    (hlexemes : lexemes.map Lexeme.element = (namedElements pairs).tail) :
    Derives .namedValues lexemes pairs := by
  induction pairs generalizing lexemes with
  | nil => exact absurd rfl hne
  | cons pair rest ih =>
    have hv := h pair List.mem_cons_self
    rw [namedElements, List.tail_cons] at hlexemes
    obtain ⟨name, more, rfl, hname, hmore⟩ := List.map_eq_cons_iff.mp hlexemes
    obtain ⟨equals, others, rfl, hequals, hothers⟩ := List.map_eq_cons_iff.mp hmore
    have hpair : ∀ {inner : List (Lexeme Symbol)}, inner.map Lexeme.element = pair.2.elements →
        Derives .namedValue (name :: equals :: inner) pair := by
      intro inner hinner
      have hderives := Derives.namedValue (congrArg Element.kind hname)
        (congrArg Element.kind hequals) (hv inner hinner)
      rwa [show name.text = pair.1 from congrArg Element.text hname] at hderives
    cases rest with
    | nil =>
      rw [namedElements, List.append_nil] at hothers
      exact .lastNamedValue (hpair hothers)
    | cons next last =>
      obtain ⟨first, more, rfl, hfirst, hmore⟩ := List.map_eq_append_iff.mp hothers
      rw [namedElements] at hmore
      obtain ⟨comma, left, rfl, hcomma, hleft⟩ := List.map_eq_cons_iff.mp hmore
      have hrest := ih (List.cons_ne_nil next last)
        (fun p hp ↦ h p (List.mem_cons_of_mem pair hp)) hleft
      have hderives := Derives.moreNamedValues (hpair hfirst) (congrArg Element.kind hcomma) hrest
      simpa using hderives

/-- Lexemes between two marks. -/
theorem exists_enclosed {opening closing : Element} {inner : List Element}
    {lexemes : List (Lexeme Symbol)}
    (h : lexemes.map Lexeme.element = opening :: (inner ++ [closing])) :
    ∃ first middle last, lexemes = first :: (middle ++ [last]) ∧ first.element = opening ∧
      middle.map Lexeme.element = inner ∧ last.element = closing := by
  obtain ⟨first, others, rfl, hfirst, hothers⟩ := List.map_eq_cons_iff.mp h
  obtain ⟨middle, ending, rfl, hmiddle, hending⟩ := List.map_eq_append_iff.mp hothers
  obtain ⟨last, rfl, hlast⟩ := List.map_eq_singleton_iff.mp hending
  exact ⟨first, middle, last, rfl, hfirst, hmiddle, hlast⟩

/-- Lexemes that are the elements of a printable value derive it. -/
theorem derives_of_elements {v : Value} (h : v.Printable) :
    ∀ lexemes : List (Lexeme Symbol), lexemes.map Lexeme.element = v.elements →
      Derives .value lexemes v := by
  induction h with
  | @text s =>
    intro lexemes hlexemes
    obtain ⟨quoted, rfl, hquoted⟩ := List.map_eq_singleton_iff.mp hlexemes
    have hderives := Derives.text (congrArg Element.kind hquoted)
    rwa [show quoted.text = s from congrArg Element.text hquoted] at hderives
  | @tuple fields hdistinct _ _ ih =>
    intro lexemes hlexemes
    obtain ⟨entries⟩ := fields
    obtain ⟨opening, inner, closing, rfl, hopening, hinner, hclosing⟩ := exists_enclosed hlexemes
    have hopens := congrArg Element.kind hopening
    have hcloses := congrArg Element.kind hclosing
    by_cases hempty : entries = []
    · subst hempty
      obtain rfl := List.map_eq_nil_iff.mp hinner
      exact .emptyTuple hopens hcloses
    · exact .tuple hopens (derives_of_namedElements hempty ih hinner) hcloses
        (NamedTable.collapses_entries hdistinct)
  | @values items _ ih =>
    intro lexemes hlexemes
    obtain ⟨opening, inner, closing, rfl, hopening, hinner, hclosing⟩ := exists_enclosed hlexemes
    have hopens := congrArg Element.kind hopening
    have hcloses := congrArg Element.kind hclosing
    by_cases hempty : items = []
    · subst hempty
      obtain rfl := List.map_eq_nil_iff.mp hinner
      exact .emptyList hopens hcloses
    · exact .bareList hopens (derives_of_bareElements hempty ih hinner) hcloses
  | @results items hne _ _ ih =>
    intro lexemes hlexemes
    obtain ⟨opening, inner, closing, rfl, hopening, hinner, hclosing⟩ := exists_enclosed hlexemes
    exact .namedList (congrArg Element.kind hopening) (derives_of_namedElements hne ih hinner)
      (congrArg Element.kind hclosing)

/-! ### Records -/

/-- A token is derived from the digits that it is printed as. -/
theorem derivesToken_of_elements {token : Option Token} {lexemes : List (Lexeme Symbol)}
    (h : lexemes.map Lexeme.element = tokenElements token) : DerivesToken lexemes token := by
  cases token with
  | none =>
    obtain rfl := List.map_eq_nil_iff.mp h
    exact .missing
  | some token =>
    obtain ⟨number, rfl, hnumber⟩ := List.map_eq_singleton_iff.mp h
    refine .spelled (congrArg Element.kind hnumber) ?_
    rw [show number.text = toString token.toNat from congrArg Element.text hnumber,
      Nat.toString_eq_repr, Nat.toList_repr, Nat.ofDigitChars_ten_toDigits]

/-- The fields of a record are derived from what they are printed as. -/
theorem derivesFields_of_elements {fields : Fields} (h : (Value.tuple fields).Printable)
    {lexemes : List (Lexeme Symbol)}
    (hlexemes : lexemes.map Lexeme.element = namedElements fields.entries) :
    DerivesFields lexemes fields := by
  obtain ⟨entries⟩ := fields
  obtain _ | ⟨hdistinct, hnames, hvalues⟩ := h
  cases entries with
  | nil =>
    obtain rfl := List.map_eq_nil_iff.mp hlexemes
    exact .missing
  | cons pair rest =>
    rw [namedElements] at hlexemes
    obtain ⟨comma, others, rfl, hcomma, hothers⟩ := List.map_eq_cons_iff.mp hlexemes
    refine .listed (congrArg Element.kind hcomma) ?_ (NamedTable.collapses_entries hdistinct)
    exact derives_of_namedElements (List.cons_ne_nil pair rest)
      (fun p hp ↦ derives_of_elements (hvalues p hp)) hothers

theorem kind_element_notice (notice : Notice) : notice.element.kind = notice.mark := by
  cases notice <;> rfl

theorem kind_element_channel (channel : Channel) : channel.element.kind = channel.mark := by
  cases channel <;> rfl

/-- Lexemes that are the elements of a printable record derive it. -/
theorem derivesRecord_of_elements {record : Record} (h : record.Printable)
    {lexemes : List (Lexeme Symbol)} (hlexemes : lexemes.map Lexeme.element = record.elements) :
    DerivesRecord lexemes record := by
  cases record with
  | stream channel text =>
    obtain ⟨mark, others, rfl, hmark, hothers⟩ := List.map_eq_cons_iff.mp hlexemes
    obtain ⟨quoted, rfl, hquoted⟩ := List.map_eq_singleton_iff.mp hothers
    have hderives := DerivesRecord.stream
      ((congrArg Element.kind hmark).trans (kind_element_channel channel))
      (congrArg Element.kind hquoted)
    rwa [show quoted.text = text from congrArg Element.text hquoted] at hderives
  | async notice token cls fields =>
    obtain ⟨digits, others, rfl, hdigits, hothers⟩ := List.map_eq_append_iff.mp hlexemes
    obtain ⟨mark, more, rfl, hmark, hmore⟩ := List.map_eq_cons_iff.mp hothers
    obtain ⟨name, last, rfl, hname, hlast⟩ := List.map_eq_cons_iff.mp hmore
    have hderives := DerivesRecord.async (derivesToken_of_elements hdigits)
      ((congrArg Element.kind hmark).trans (kind_element_notice notice))
      (congrArg Element.kind hname) (derivesFields_of_elements h.2 hlast)
    rwa [show name.text = cls from congrArg Element.text hname] at hderives
  | result token cls fields =>
    obtain ⟨digits, others, rfl, hdigits, hothers⟩ := List.map_eq_append_iff.mp hlexemes
    obtain ⟨mark, more, rfl, hmark, hmore⟩ := List.map_eq_cons_iff.mp hothers
    obtain ⟨name, last, rfl, hname, hlast⟩ := List.map_eq_cons_iff.mp hmore
    have hderives := DerivesRecord.result (derivesToken_of_elements hdigits)
      (congrArg Element.kind hmark) (congrArg Element.kind hname)
      (derivesFields_of_elements h.2 hlast)
    rwa [show name.text = cls from congrArg Element.text hname] at hderives
  | prompt =>
    obtain ⟨mark, rfl, hmark⟩ := List.map_eq_singleton_iff.mp hlexemes
    exact .prompt (congrArg Element.kind hmark)

theorem isMark_notice (notice : Notice) : notice.element.IsMark := by
  cases notice <;> refine isMark_of_literal ?_ ?_ <;> simp [Notice.element, Symbol.literals]

theorem isMark_channel (channel : Channel) : channel.element.IsMark := by
  cases channel <;> refine isMark_of_literal ?_ ?_ <;> simp [Channel.element, Symbol.literals]

/-- A token is printed as one word, or not at all. -/
theorem legible_tokenElements (token : Option Token) : Legible (tokenElements token) := by
  cases token with
  | none => exact .nil
  | some token =>
    refine .lastWord (Or.inl ⟨rfl, ?_, ?_⟩)
    · rw [Nat.toString_eq_repr, Nat.toList_repr]
      exact Nat.toDigits_ne_nil
    · intro c hc
      rw [Nat.toString_eq_repr, Nat.toList_repr] at hc
      exact Nat.isDigit_of_mem_toDigits (by omega) (by omega) hc

/-- A class and the fields behind it are legible. -/
theorem legible_classified {cls : String} (hcls : IsIdentifier cls) {fields : Fields}
    (h : (Value.tuple fields).Printable) :
    Legible (⟨.identifier, cls⟩ :: namedElements fields.entries) := by
  have hword : Element.IsWord ⟨.identifier, cls⟩ := Or.inr ⟨rfl, hcls⟩
  obtain ⟨entries⟩ := fields
  obtain _ | ⟨-, hnames, hvalues⟩ := h
  cases entries with
  | nil => exact .lastWord hword
  | cons pair rest =>
    have htail := legible_tail_namedElements hnames fun p hp ↦ legible_elements (hvalues p hp)
    exact .word hword isMark_comma htail

/-- The elements of a printable record can be told apart. -/
theorem legible_record {record : Record} (h : record.Printable) : Legible record.elements := by
  cases record with
  | stream channel text => exact .mark (isMark_channel channel) (.mark (Or.inl rfl) .nil)
  | async notice token cls fields =>
    exact (legible_tokenElements token).append_mark (isMark_notice notice)
      (legible_classified h.1 h.2)
  | result token cls fields =>
    have hcaret : Element.IsMark ⟨.caret, "^"⟩ := by
      refine isMark_of_literal ?_ ?_ <;> simp [Symbol.literals]
    exact (legible_tokenElements token).append_mark hcaret (legible_classified h.1 h.2)
  | prompt =>
    refine .mark (isMark_of_literal ?_ ?_) .nil <;> simp [Symbol.literals]

/-! ### Line ends -/

/-- The characters end as a line does. -/
def EndsLine (chars : List Char) : Prop :=
  chars.getLast? = some '\n' ∨ chars.getLast? = some '\r'

/-- No line ends in a text if none ends in its parts. -/
theorem not_endsLine_append {front back : List Char} (hfront : ¬ EndsLine front)
    (hback : ¬ EndsLine back) : ¬ EndsLine (front ++ back) := by
  simp only [EndsLine, List.getLast?_append, Option.or_eq_some_iff] at *
  tauto

/-- No line ends in a text without line feeds and carriage returns. -/
theorem not_endsLine_of_forall {chars : List Char} (h : ∀ c ∈ chars, c ≠ '\n' ∧ c ≠ '\r') :
    ¬ EndsLine chars := by
  rintro (hlast | hlast)
  · exact (h _ (List.mem_of_getLast? hlast)).1 rfl
  · exact (h _ (List.mem_of_getLast? hlast)).2 rfl

/-- No line ends within an element. -/
theorem not_endsLine_of_shows {e : Element} (h : e.IsMark ∨ e.IsWord) {source : List Char}
    (hsource : e.Shows source) : ¬ EndsLine source := by
  have hliterals : ∀ literal ∈ Symbol.literals, literal.1 ≠ .lineEnd →
      literal.2.toList.getLast? ≠ some '\n' ∧ literal.2.toList.getLast? ≠ some '\r' := by decide
  rcases h with (hquoted | ⟨hliteral, hkind⟩) | hword
  · rw [Element.Shows, if_pos hquoted] at hsource
    obtain ⟨inside, -, rfl⟩ := hsource
    rw [EndsLine, ← List.cons_append, List.getLast?_concat]
    simp
  · have hlast := hliterals _ hliteral hkind
    rw [Element.Shows, if_neg (kind_ne_quoted_of_literal hliteral)] at hsource
    rw [hsource]
    exact not_or.mpr hlast
  · rw [hword.eq_of_shows hsource]
    refine not_endsLine_of_forall fun c hc ↦ ?_
    have hcontinues := hword.continuesName c hc
    constructor <;>
    · rintro rfl
      cases hcontinues

/-- Characters that show elements do not end as a line does. -/
theorem not_endsLine_of_shown {elements : List Element} (h : Legible elements)
    {chars : List Char} (hshown : Shown elements chars) : ¬ EndsLine chars := by
  have hall := h.isMark_or_isWord
  clear h
  have hblank : ∀ {blanks : List Char}, (∀ c ∈ blanks, c = ' ' ∨ c = '\t') → ¬ EndsLine blanks := by
    intro blanks hblanks
    refine not_endsLine_of_forall fun c hc ↦ ?_
    rcases hblanks c hc with rfl | rfl <;> simp
  induction hshown with
  | done hblanks => exact hblank hblanks
  | element hblanks hsource _ ih =>
    have hothers := ih fun e he ↦ hall e (List.mem_cons_of_mem _ he)
    have hends := not_endsLine_of_shows (hall _ List.mem_cons_self) hsource
    exact not_endsLine_append (not_endsLine_append (hblank hblanks) hends) hothers

/-- The line that is read is the printed one with a line end, given or supplied. -/
theorem exists_terminated {text ending : String} (htext : ¬ EndsLine text.toList)
    (hending : ending ∈ ["", "\n", "\r", "\r\n"]) :
    ∃ last ∈ ["\n", "\r", "\r\n"], terminated (text ++ ending) = text ++ last := by
  obtain ⟨hfeed, hreturn⟩ := not_or.mp htext
  simp only [List.mem_cons, List.not_mem_nil, or_false] at hending
  rcases hending with rfl | hending
  · refine ⟨"\n", by simp, ?_⟩
    rw [String.append_empty, terminated]
    split
    · exact absurd ‹_› hfeed
    · exact absurd ‹_› hreturn
    · rfl
  · refine ⟨ending, by simpa using hending, ?_⟩
    rcases hending with rfl | rfl | rfl <;> simp [terminated]

/-- A printed record is read back, however its elements are spaced and its strings are spelled. -/
theorem parse_of_shown {record : Record} (hrecord : record.Printable) {text ending : String}
    (hshown : Shown record.elements text.toList) (hending : ending ∈ ["", "\n", "\r", "\r\n"]) :
    parse (text ++ ending) = .ok record := by
  have hlegible := legible_record hrecord
  obtain ⟨last, hlast, hterminated⟩ :=
    exists_terminated (not_endsLine_of_shown hlegible hshown) hending
  obtain ⟨hstops, htail⟩ : StopsWords last.toList ∧ Yields last.toList [⟨.lineEnd, last⟩] := by
    simp only [List.mem_cons, List.not_mem_nil, or_false] at hlast
    rcases hlast with rfl | rfl | rfl <;>
    · refine ⟨?_, yields_of_scan rfl yields_nil⟩
      rintro c hc
      cases hc
      rfl
  obtain ⟨lexemes, hlexemes, hlexes⟩ := yields_of_shown hlegible hstops htail hshown 0
  obtain ⟨first, others, rfl, hfirst, hothers⟩ := List.map_eq_append_iff.mp hlexemes
  obtain ⟨lineEnd, rfl, hlineEnd⟩ := List.map_eq_singleton_iff.mp hothers
  have hderives : DerivesLine (first ++ [lineEnd]) record :=
    .mk (derivesRecord_of_elements hrecord hfirst) (congrArg Element.kind hlineEnd)
  have hfound := (ofLexemes?_eq_some_iff (numbersSpelled_of_lexes hlexes)).mpr hderives
  have hlex : Symbol.lex (terminated (text ++ ending)) = .ok (first ++ [lineEnd]) := by
    rw [hterminated, Symbol.lex_eq_ok_iff, String.toList_append]
    exact hlexes
  simp only [parse, hlex, hfound]

/-- A printed record is read back, however its elements are spaced and whether its line is ended by
a line feed, a carriage return, both or not at all. -/
theorem parse_of_spaced {record : Record} (hrecord : record.Printable) {text ending : String}
    (hspaced : Spaced record.elements text.toList) (hending : ending ∈ ["", "\n", "\r", "\r\n"]) :
    parse (text ++ ending) = .ok record :=
  parse_of_shown hrecord hspaced.shown hending

/-- A result with a token, a tuple and an escaped text, with blanks here and there. -/
theorem parse_spaced_result :
    parse (" 7 ^done,a=\x7bb =\t\"c\\\"\" \x7d" ++ "\r\n") =
      .ok (.result (some 7) "done" ⟨[("a", .tuple ⟨[("b", .text "c\"")]⟩)]⟩) := by
  have hname : ∀ {c : Char}, c.isAlpha = true → IsIdentifier (String.singleton c) :=
    fun {c} h ↦ ⟨c, [], by simp, Or.inl h, fun _ hc ↦ nomatch hc⟩
  have htuple : (Value.tuple ⟨[("b", .text "c\"")]⟩).Printable := by
    refine .tuple (List.nodup_singleton _) ?_ ?_ <;> rintro pair hpair <;>
      obtain rfl := List.mem_singleton.mp hpair
    · exact hname (c := 'b') rfl
    · exact .text
  have hrecord : (result (some 7) "done" ⟨[("a", .tuple ⟨[("b", .text "c\"")]⟩)]⟩).Printable := by
    refine ⟨⟨'d', ['o', 'n', 'e'], rfl, Or.inl rfl, by simp⟩, ?_⟩
    refine .tuple (List.nodup_singleton _) ?_ ?_ <;> rintro pair hpair <;>
      obtain rfl := List.mem_singleton.mp hpair
    · exact hname (c := 'a') rfl
    · exact htuple
  have hnone : ∀ c ∈ ([] : List Char), c = ' ' ∨ c = '\t' := fun _ hc ↦ nomatch hc
  have hspace : ∀ c ∈ [' '], c = ' ' ∨ c = '\t' := by simp
  have htab : ∀ c ∈ ['\t'], c = ' ' ∨ c = '\t' := by simp
  have hspaced : Spaced (result (some 7) "done" ⟨[("a", .tuple ⟨[("b", .text "c\"")]⟩)]⟩).elements
      " 7 ^done,a=\x7bb =\t\"c\\\"\" \x7d".toList :=
    .element hspace <| .element hspace <| .element hnone <| .element hnone <| .element hnone <|
      .element hnone <| .element hnone <| .element hnone <| .element hspace <| .element htab <|
        .element hspace <| .done hnone
  exact parse_of_spaced hrecord hspaced (by simp)

end Record

end DebugLink
