import DebugLink.Proofs.TypeName.Derivation
import DebugLink.Proofs.TypeName.Lexemes

/-!
Types that are spelled are read back. The spelling of a type falls into lexical elements that can be
told apart whatever follows (`legible_text`), and lexemes that are these elements derive the type
(`derives_of_elements`). The type has to have a word of its own at every level, since one without is
spelled `int` and read back as a type of that name.

Conversely, a type that is read has names that are words, and wherever there is a list of arguments
at least one (`spellable_of_parse?`).
-/

set_option autoImplicit false

namespace DebugLink.TypeName

open Lexer (content)

/-! ### Types that can be spelled -/

/-- A word that is neither dropped nor a size word. -/
def IsName (text : String) : Prop :=
  IsWord text ∧ droppedWords.contains text = false ∧ sizeWord? text = none

instance (text : String) : Decidable (IsName text) :=
  inferInstanceAs (Decidable (IsWord text ∧ _ ∧ _))

/-- A property of a type and of the types in its template arguments, at every depth. -/
inductive Everywhere (P : TypeName → Prop) : TypeName → Prop
  | mk {ty : TypeName} : P ty →
    (∀ scope ∈ ty.path, ∀ arguments, scope.arguments = some arguments →
      ∀ argument ∈ arguments, Everywhere P argument) → Everywhere P ty

/-- The components of the path have names, and if they have arguments at least one. -/
def Spellable (ty : TypeName) : Prop :=
  ∀ scope ∈ ty.path, IsName scope.name ∧ scope.arguments ≠ some []

/-- The type has a size word or a name. -/
def Worded (ty : TypeName) : Prop :=
  ty.specifiers ≠ [] ∨ ty.path ≠ []

/-- What holds at every level may be weakened at every level. -/
theorem Everywhere.imp {P Q : TypeName → Prop} (hPQ : ∀ ty, P ty → Q ty) {ty : TypeName}
    (h : ty.Everywhere P) : ty.Everywhere Q := by
  induction h with
  | mk hty _ ih => exact .mk (hPQ _ hty) ih

/-- A property holds everywhere in a type if it holds of the type itself and everywhere in its
arguments. -/
theorem everywhere_mk_iff {P : TypeName → Prop} {specifiers : List SizeWord}
    {path : List (Scope TypeName)} {declarators : List Marker} :
    Everywhere P ⟨specifiers, path, declarators⟩ ↔ P ⟨specifiers, path, declarators⟩ ∧
      ∀ scope ∈ path, ∀ arguments, scope.arguments = some arguments →
        ∀ argument ∈ arguments, Everywhere P argument :=
  ⟨fun ⟨hty, harguments⟩ ↦ ⟨hty, harguments⟩, fun ⟨hty, harguments⟩ ↦ .mk hty harguments⟩

/-! ### Spellings -/

/-- The texts of a path are those of its components. -/
theorem pathTexts_eq_map (path : List (Scope TypeName)) : pathTexts path = path.map scopeText := by
  induction path with
  | nil => rw [pathTexts, List.map_nil]
  | cons scope rest ih => rw [pathTexts, List.map_cons, ih]

/-- The texts of arguments are those of the types. -/
theorem argumentTexts_eq_map (arguments : List TypeName) :
    argumentTexts arguments = arguments.map text := by
  induction arguments with
  | nil => rw [argumentTexts, List.map_nil]
  | cons argument rest ih => rw [argumentTexts, List.map_cons, ih]

/-- A type is spelled by its size words, the texts of its path and its markers. -/
theorem text_eq (ty : TypeName) :
    ty.text = spell ty.specifiers (ty.path.map scopeText) ty.declarators := by
  obtain ⟨specifiers, path, declarators⟩ := ty
  rw [text, pathTexts_eq_map]
  rfl

/-- The words of a spelling, each of them a size word or a whole qualified name. -/
def spelledWords (specifiers : List SizeWord) (path : List String) : List String :=
  if specifiers.isEmpty && path.isEmpty then ["int"]
  else specifiers.map SizeWord.text ++ if path.isEmpty then [] else ["::".intercalate path]

/-- No spelling is without a word, since `int` stands in for a name that is missing. -/
theorem spelledWords_ne_nil (specifiers : List SizeWord) (path : List String) :
    spelledWords specifiers path ≠ [] := by
  cases specifiers <;> cases path <;> simp [spelledWords]

/-- A spelling is that of its words, and the markers behind a space. -/
theorem spell_eq (specifiers : List SizeWord) (path : List String) (declarators : List Marker) :
    spell specifiers path declarators = " ".intercalate (spelledWords specifiers path) ++
      if declarators.isEmpty then "" else " " ++ String.ofList (declarators.map Marker.char) := by
  have hspell : spell specifiers path declarators = " ".intercalate
      (spelledWords specifiers path ++ if declarators.isEmpty then []
        else [String.ofList (declarators.map Marker.char)]) := by
    cases specifiers <;> cases path <;> rfl
  rw [hspell]
  split_ifs with hempty
  · simp
  · rw [String.intercalate_append_of_ne_nil (spelledWords_ne_nil _ _) (List.cons_ne_nil _ _),
      String.intercalate_singleton, String.append_assoc]

/-- The brackets around arguments, the closing one perhaps behind a space. -/
theorem bracketed_cases (arguments : List String) :
    bracketed arguments = "<" ++ ", ".intercalate arguments ++ ">" ∨
      bracketed arguments = "<" ++ ", ".intercalate arguments ++ " >" := by
  unfold bracketed
  split
  · split_ifs
    · exact .inr rfl
    · exact .inl rfl
  · exact .inl rfl

/-! ### Elements -/

/-- The element that a marker is. -/
def markerElement (marker : Marker) : TypeSymbol × String :=
  (marker.symbol, String.singleton marker.char)

/-- The elements of a type from those of its parts. -/
def spelledElements (specifiers : List SizeWord) (path : List (List (TypeSymbol × String)))
    (declarators : List Marker) : List (TypeSymbol × String) :=
  let words := specifiers.map fun size ↦ (TypeSymbol.word, size.text)
  (if specifiers.isEmpty && path.isEmpty then [(.word, "int")]
    else words ++ [(TypeSymbol.scope, "::")].intercalate path) ++ declarators.map markerElement

mutual

/-- The lexical elements of the spelling of a type. -/
def elements : TypeName → List (TypeSymbol × String)
  | ⟨specifiers, path, declarators⟩ => spelledElements specifiers (pathElements path) declarators

/-- The elements of the components of a path. -/
def pathElements : List (Scope TypeName) → List (List (TypeSymbol × String))
  | [] => []
  | scope :: rest => scopeElements scope :: pathElements rest

/-- The elements of a component of a path. -/
def scopeElements : Scope TypeName → List (TypeSymbol × String)
  | ⟨name, none⟩ => [(.word, name)]
  | ⟨name, some arguments⟩ =>
    (.word, name) :: (.less, "<") ::
      ([(TypeSymbol.comma, ",")].intercalate (argumentElements arguments) ++ [(.greater, ">")])

/-- The elements of template arguments. -/
def argumentElements : List TypeName → List (List (TypeSymbol × String))
  | [] => []
  | argument :: rest => argument.elements :: argumentElements rest

end

/-- The elements of a path are those of its components. -/
theorem pathElements_eq_map (path : List (Scope TypeName)) :
    pathElements path = path.map scopeElements := by
  induction path with
  | nil => rw [pathElements, List.map_nil]
  | cons scope rest ih => rw [pathElements, List.map_cons, ih]

/-- The elements of arguments are those of the types. -/
theorem argumentElements_eq_map (arguments : List TypeName) :
    argumentElements arguments = arguments.map elements := by
  induction arguments with
  | nil => rw [argumentElements, List.map_nil]
  | cons argument rest ih => rw [argumentElements, List.map_cons, ih]

/-- The elements of a type come from those of its components, as its text comes from theirs. -/
theorem elements_eq (ty : TypeName) :
    ty.elements =
      spelledElements ty.specifiers (ty.path.map scopeElements) ty.declarators := by
  obtain ⟨specifiers, path, declarators⟩ := ty
  rw [elements, pathElements_eq_map]
  rfl

/-! ### Elements in characters -/

/-- The characters fall into the elements, whatever stands around them, unless a word goes on in
what follows. -/
def Legible (chars : List Char) (elements : List (TypeSymbol × String)) : Prop :=
  ∀ tail others, EndsWords tail → lexer.Yields 0 tail others →
    lexer.Yields 0 (chars ++ tail) (elements ++ others)

/-- As `Legible`, but a word may come next. -/
def Separates (chars : List Char) (elements : List (TypeSymbol × String)) : Prop :=
  (∀ tail, EndsWords (chars ++ tail)) ∧
    ∀ tail others, lexer.Yields 0 tail others →
      lexer.Yields 0 (chars ++ tail) (elements ++ others)

/-- At the end of the text a word is over. -/
theorem endsWords_nil : EndsWords [] := fun _ h ↦ nomatch h

/-- A literal is one element of its own and ends a word before it. -/
theorem separates_literal (literal : TypeSymbol × String) (h : literal ∈ literals) :
    Separates literal.2.toList [literal] := by
  refine ⟨fun tail c hc ↦ ?_, fun tail others htail ↦ ?_⟩
  · have hbegins : ∀ literal ∈ literals, ∃ first others,
        literal.2.toList = first :: others ∧ isWordChar first = false := by
      intro literal hmem
      simp only [literals, List.mem_cons, List.not_mem_nil, or_false] at hmem
      rcases hmem with rfl | rfl | rfl | rfl | rfl | rfl <;> exact ⟨_, _, rfl, rfl⟩
    obtain ⟨first, others, htext, hfirst⟩ := hbegins literal h
    rw [htext] at hc
    obtain rfl : first = c := by simpa using hc
    exact hfirst
  · exact .cons ((first?_eq_scan _).trans (scan_literal h tail)) htail

/-- A blank is no element. -/
theorem separates_space : Separates [' '] [] := by
  refine ⟨fun tail c hc ↦ ?_, fun tail others htail ↦ ?_⟩
  · obtain rfl : ' ' = c := by simpa using hc
    rfl
  · exact .skip ((first?_eq_scan _).trans (scan_space tail)) htail

/-- Separating texts may follow each other. -/
theorem Separates.append {first second : List Char} {elements others : List (TypeSymbol × String)}
    (hfirst : Separates first elements) (hsecond : Separates second others) :
    Separates (first ++ second) (elements ++ others) := by
  refine ⟨fun tail ↦ ?_, fun tail more htail ↦ ?_⟩
  · rw [List.append_assoc]
    exact hfirst.1 _
  · rw [List.append_assoc, List.append_assoc]
    exact hfirst.2 _ _ (hsecond.2 _ _ htail)

/-- A text that ends a word may follow one that ends in a word. -/
theorem Legible.append {first second : List Char} {elements others : List (TypeSymbol × String)}
    (hfirst : Legible first elements) (hsecond : Separates second others) :
    Legible (first ++ second) (elements ++ others) := by
  intro tail more _ htail
  rw [List.append_assoc, List.append_assoc]
  exact hfirst _ _ (hsecond.1 tail) (hsecond.2 _ _ htail)

/-- Behind a text that separates a word may stand. -/
theorem Separates.append_legible {first second : List Char}
    {elements others : List (TypeSymbol × String)} (hfirst : Separates first elements)
    (hsecond : Legible second others) : Legible (first ++ second) (elements ++ others) := by
  intro tail more hends htail
  rw [List.append_assoc, List.append_assoc]
  exact hfirst.2 _ _ (hsecond _ _ hends htail)

/-- A word reads as one element. -/
theorem legible_word {text : String} (h : IsWord text) :
    Legible text.toList [(.word, text)] :=
  fun _ _ hends htail ↦ .cons ((first?_eq_scan _).trans (scan_word h hends)) htail

/-- Items that can be read stay so with separators between them. -/
theorem legible_intercalate {ι : Type} {separator : List Char}
    {between : List (TypeSymbol × String)} (hseparator : Separates separator between)
    {chars : ι → List Char} {elements : ι → List (TypeSymbol × String)} {items : List ι}
    (h : ∀ item ∈ items, Legible (chars item) (elements item)) :
    Legible (separator.intercalate (items.map chars))
      (between.intercalate (items.map elements)) := by
  induction items with
  | nil => exact fun tail others _ htail ↦ htail
  | cons item rest ih =>
    have hitem := h item List.mem_cons_self
    have hrest := ih fun other hmem ↦ h other (List.mem_cons_of_mem item hmem)
    cases rest with
    | nil => simpa using hitem
    | cons next others =>
      simp only [List.map_cons, List.intercalate_cons_cons] at hrest ⊢
      intro tail more hends htail
      have hmore := hseparator.append_legible hrest tail more hends htail
      simp only [List.append_assoc] at hmore ⊢
      have hnext := hseparator.1 (separator.intercalate (chars next :: others.map chars) ++ tail)
      exact hitem _ _ hnext hmore

/-- Size words are words. -/
theorem isWord_size (size : SizeWord) : IsWord size.text := by
  cases size <;> decide

/-- Nothing in between is plain concatenation. -/
theorem intercalate_of_no_separator {α : Type} (items : List (List α)) :
    ([] : List α).intercalate items = items.flatten := by
  induction items with
  | nil => rfl
  | cons item rest ih =>
    cases rest with
    | nil => simp
    | cons next others =>
      rw [List.intercalate_cons_cons, ih, List.append_nil, ← List.flatten_cons]

/-- Words stay apart with spaces between them. -/
theorem legible_spaced {items : List (String × List (TypeSymbol × String))}
    (h : ∀ item ∈ items, Legible item.1.toList item.2) :
    Legible (" ".intercalate (items.map Prod.fst)).toList (items.map Prod.snd).flatten := by
  rw [String.toList_intercalate, List.map_map, ← intercalate_of_no_separator]
  exact legible_intercalate separates_space h

/-- The words of a type read as their elements, if its path does. -/
theorem legible_words (specifiers : List SizeWord) {path : List String}
    {elements : List (List (TypeSymbol × String))} (hlength : path.isEmpty = elements.isEmpty)
    (hpath : Legible ("::".intercalate path).toList
      ([(TypeSymbol.scope, "::")].intercalate elements)) :
    Legible (" ".intercalate (spelledWords specifiers path)).toList
      (spelledElements specifiers elements []) := by
  let item (size : SizeWord) : String × List (TypeSymbol × String) :=
    (size.text, [(.word, size.text)])
  have hsizes : ∀ pair ∈ specifiers.map item, Legible pair.1.toList pair.2 := by
    intro pair hmem
    obtain ⟨size, -, rfl⟩ := List.mem_map.mp hmem
    exact legible_word (isWord_size size)
  have hflatten : ((specifiers.map item).map Prod.snd).flatten =
      specifiers.map fun size ↦ (TypeSymbol.word, size.text) := by
    rw [List.map_map, ← List.flatMap_def, List.map_eq_flatMap]
    rfl
  have htexts : (specifiers.map item).map Prod.fst = specifiers.map SizeWord.text := by
    rw [List.map_map]
    rfl
  cases path with
  | nil =>
    obtain rfl : elements = [] := List.isEmpty_iff.mp hlength.symm
    cases specifiers with
    | nil =>
      have hint : IsWord "int" := by decide
      exact legible_word hint
    | cons size others =>
      have hlegible := legible_spaced hsizes
      rw [htexts, hflatten] at hlegible
      simpa [spelledWords, spelledElements] using hlegible
  | cons component rest =>
    have helements : elements.isEmpty = false := hlength.symm
    have hitems : ∀ pair ∈ specifiers.map item ++ [("::".intercalate (component :: rest),
        [(TypeSymbol.scope, "::")].intercalate elements)], Legible pair.1.toList pair.2 :=
      List.forall_mem_append.mpr ⟨hsizes, List.forall_mem_singleton.mpr hpath⟩
    have hlegible := legible_spaced hitems
    rw [List.map_append, List.map_append, List.flatten_append, htexts, hflatten] at hlegible
    simpa [spelledWords, spelledElements, helements] using hlegible

/-- The markers of a type read as their elements. -/
theorem yields_markers (declarators : List Marker) {tail : List Char}
    {others : List (TypeSymbol × String)} (htail : lexer.Yields 0 tail others) :
    lexer.Yields 0 (declarators.map Marker.char ++ tail)
      (declarators.map markerElement ++ others) := by
  induction declarators with
  | nil => exact htail
  | cons marker rest ih =>
    have hmark : markerElement marker ∈ literals := by
      cases marker <;> decide
    have hchars : (markerElement marker).2.toList = [marker.char] := String.toList_singleton _
    have hread := (separates_literal _ hmark).2 _ _ ih
    rwa [hchars] at hread

/-- Markers stand apart from the words in front of them. -/
theorem legible_spell {specifiers : List SizeWord} {path : List String}
    {elements : List (List (TypeSymbol × String))} {declarators : List Marker}
    (hwords : Legible (" ".intercalate (spelledWords specifiers path)).toList
      (spelledElements specifiers elements [])) :
    Legible (spell specifiers path declarators).toList
      (spelledElements specifiers elements declarators) := by
  have helements : spelledElements specifiers elements declarators =
      spelledElements specifiers elements [] ++ declarators.map markerElement := by
    simp [spelledElements]
  rw [spell_eq, String.toList_append, helements]
  split_ifs with hempty
  · rw [List.isEmpty_iff.mp hempty]
    simpa using hwords
  · have hmarkers : Separates (' ' :: declarators.map Marker.char)
        (declarators.map markerElement) :=
      ⟨fun tail ↦ separates_space.1 (declarators.map Marker.char ++ tail),
        fun _ _ htail ↦ separates_space.2 _ _ (yields_markers declarators htail)⟩
    have htext : (" " ++ String.ofList (declarators.map Marker.char)).toList =
        ' ' :: declarators.map Marker.char := by simp
    rw [htext]
    exact hwords.append hmarkers

/-- A comma with a blank behind it is one element, which separates. -/
theorem separates_comma : Separates ", ".toList [(TypeSymbol.comma, ",")] :=
  (separates_literal (.comma, ",") (by decide)).append separates_space

/-- Brackets can be told apart from what stands between them and around them. -/
theorem separates_bracketed {arguments : List String}
    {elements : List (List (TypeSymbol × String))}
    (h : Legible (", ".intercalate arguments).toList
      ([(TypeSymbol.comma, ",")].intercalate elements)) :
    Separates (bracketed arguments).toList
      ((.less, "<") :: ([(TypeSymbol.comma, ",")].intercalate elements ++ [(.greater, ">")])) := by
  have hopening : Separates "<".toList [(TypeSymbol.less, "<")] :=
    separates_literal (.less, "<") (by decide)
  have hgreater : Separates ">".toList [(TypeSymbol.greater, ">")] :=
    separates_literal (.greater, ">") (by decide)
  have hclosing : ∃ closing : String, Separates closing.toList [(TypeSymbol.greater, ">")] ∧
      bracketed arguments = "<" ++ ", ".intercalate arguments ++ closing := by
    rcases bracketed_cases arguments with htext | htext
    · exact ⟨">", hgreater, htext⟩
    · exact ⟨" >", separates_space.append hgreater, htext⟩
  obtain ⟨closing, hclosing, htext⟩ := hclosing
  have hinner := h.append hclosing
  rw [htext, String.toList_append, String.toList_append]
  refine ⟨fun tail ↦ ?_, fun tail others htail ↦ ?_⟩
  · rw [List.append_assoc, List.append_assoc]
    exact hopening.1 _
  · have hrest : lexer.Yields 0 _ _ := h _ _ (hclosing.1 tail) (hclosing.2 tail others htail)
    have hread := hopening.2 _ _ hrest
    simpa only [List.append_assoc, List.cons_append, List.nil_append] using hread

/-- The spelling of a type falls into its elements. -/
theorem legible_text {ty : TypeName} (h : ty.Everywhere Spellable) :
    Legible ty.text.toList ty.elements := by
  induction h with
  | @mk ty hnames _ ih =>
    have hscopes : ∀ scope ∈ ty.path, Legible (scopeText scope).toList (scopeElements scope) := by
      rintro ⟨name, arguments⟩ hscope
      have hname := legible_word (hnames _ hscope).1.1
      cases arguments with
      | none => rwa [scopeText, scopeElements]
      | some arguments =>
        have hlist := legible_intercalate separates_comma fun argument hmem ↦
          ih _ hscope arguments rfl argument hmem
        have hinner : Legible (", ".intercalate (arguments.map text)).toList
            ([(TypeSymbol.comma, ",")].intercalate (arguments.map elements)) := by
          rw [String.toList_intercalate, List.map_map]
          exact hlist
        rw [scopeText, scopeElements, argumentTexts_eq_map, argumentElements_eq_map,
          String.toList_append]
        exact hname.append (separates_bracketed hinner)
    have hpath : Legible ("::".intercalate (ty.path.map scopeText)).toList
        ([(TypeSymbol.scope, "::")].intercalate (ty.path.map scopeElements)) := by
      rw [String.toList_intercalate, List.map_map]
      exact legible_intercalate (separates_literal (.scope, "::") (by decide)) hscopes
    have hlength : (ty.path.map scopeText).isEmpty = (ty.path.map scopeElements).isEmpty := by
      rw [List.isEmpty_map, List.isEmpty_map]
    rw [text_eq, elements_eq]
    exact legible_spell (legible_words ty.specifiers hlength hpath)

/-! ### Elements derive types -/

/-- Whether a lexeme is a name depends on its text. -/
theorem isName_of_content {lexeme : Lexeme TypeSymbol} {text : String}
    (h : content lexeme = (.word, text)) (htext : IsName text) : isName lexeme = true := by
  obtain ⟨hkind, rfl⟩ := Prod.mk.inj h
  obtain ⟨-, hdropped, hsize⟩ := htext
  rw [isName, isDropped, isSize, hkind, hdropped, hsize]
  rfl

/-- Items with marks between them. -/
theorem separated_of_intercalate {α : Type} {Item : List (Lexeme TypeSymbol) → α → Prop}
    {mark : TypeSymbol × String} {elements : α → List (TypeSymbol × String)} {items : List α}
    (hne : items ≠ []) (h : ∀ item ∈ items, ∀ lexemes : List (Lexeme TypeSymbol),
      lexemes.map content = elements item → Item lexemes item)
    {lexemes : List (Lexeme TypeSymbol)}
    (hlexemes : lexemes.map content = [mark].intercalate (items.map elements)) :
    Parser.Separated Item (IsMark mark.1) lexemes items := by
  induction items generalizing lexemes with
  | nil => exact absurd rfl hne
  | cons item rest ih =>
    have hitem := h item List.mem_cons_self
    cases rest with
    | nil =>
      rw [List.map_singleton, List.intercalate_singleton] at hlexemes
      exact .last (hitem lexemes hlexemes)
    | cons next others =>
      rw [List.map_cons, List.map_cons, List.intercalate_cons_cons] at hlexemes
      obtain ⟨front, last, rfl, hfront, hlast⟩ := List.map_eq_append_iff.mp hlexemes
      obtain ⟨first, middle, rfl, hfirst, hmiddle⟩ := List.map_eq_append_iff.mp hfront
      obtain ⟨separator, rfl, hseparator⟩ := List.map_eq_singleton_iff.mp hmiddle
      have hrest := ih (List.cons_ne_nil next others)
        (fun other hmem ↦ h other (List.mem_cons_of_mem item hmem)) hlast
      exact .more (hitem first hfirst) ⟨separator, congrArg Prod.fst hseparator, rfl⟩ hrest

/-- The lexemes of a component, if those of its arguments derive them. -/
theorem derives_of_scopeElements {scope : Scope TypeName} (hname : IsName scope.name)
    (hsome : scope.arguments ≠ some [])
    (h : ∀ arguments, scope.arguments = some arguments → ∀ argument ∈ arguments,
      ∀ lexemes : List (Lexeme TypeSymbol), lexemes.map content = argument.elements →
        Derives .type lexemes argument)
    {lexemes : List (Lexeme TypeSymbol)} (hlexemes : lexemes.map content = scopeElements scope) :
    Derives .component lexemes scope := by
  obtain ⟨text, arguments⟩ := scope
  cases arguments with
  | none =>
    rw [scopeElements] at hlexemes
    obtain ⟨name, rfl, hcontent⟩ := List.map_eq_singleton_iff.mp hlexemes
    have hderives := Derives.plain (isName_of_content hcontent hname)
    rwa [show name.text = text from congrArg Prod.snd hcontent] at hderives
  | some arguments =>
    rw [scopeElements, argumentElements_eq_map] at hlexemes
    obtain ⟨name, others, rfl, hcontent, hothers⟩ := List.map_eq_cons_iff.mp hlexemes
    obtain ⟨opening, more, rfl, hopening, hmore⟩ := List.map_eq_cons_iff.mp hothers
    obtain ⟨inner, last, rfl, hinner, hlast⟩ := List.map_eq_append_iff.mp hmore
    obtain ⟨closing, rfl, hclosing⟩ := List.map_eq_singleton_iff.mp hlast
    have hne : arguments ≠ [] := fun hnil ↦ hsome (congrArg some hnil)
    have hlist := derives_types_of_separated
      (separated_of_intercalate hne (h arguments rfl) hinner)
    have hderives := Derives.template (isName_of_content hcontent hname)
      (congrArg Prod.fst hopening) hlist (congrArg Prod.fst hclosing)
    rwa [show name.text = text from congrArg Prod.snd hcontent] at hderives

/-- Lexemes that read as size words are prefixes, and their sizes are those words. -/
theorem prefix_of_sizeElements {specifiers : List SizeWord} {lexemes : List (Lexeme TypeSymbol)}
    (h : lexemes.map content = specifiers.map fun size ↦ (TypeSymbol.word, size.text)) :
    (∀ lexeme ∈ lexemes, isPrefix lexeme = true) ∧ sizes lexemes = specifiers := by
  induction specifiers generalizing lexemes with
  | nil =>
    obtain rfl := List.map_eq_nil_iff.mp h
    exact ⟨fun _ hmem ↦ (nomatch hmem), rfl⟩
  | cons size rest ih =>
    obtain ⟨lexeme, others, rfl, hcontent, hothers⟩ := List.map_eq_cons_iff.mp h
    obtain ⟨hkind, htext⟩ := Prod.mk.inj hcontent
    obtain ⟨hsized, hsizes⟩ := ih hothers
    have hsize : sizeWord? lexeme.text = some size := by
      rw [htext]
      cases size <;> rfl
    refine ⟨fun found hmem ↦ ?_, ?_⟩
    · rcases List.mem_cons.mp hmem with rfl | hrest
      · simp [isPrefix, isSize, hkind, hsize]
      · exact hsized found hrest
    · rw [sizes] at hsizes ⊢
      rw [List.filterMap_cons, hsize, hsizes]

/-- Lexemes that read as markers spell those markers. -/
theorem repeated_of_markerElements {declarators : List Marker}
    {lexemes : List (Lexeme TypeSymbol)} (h : lexemes.map content = declarators.map markerElement) :
    Parser.Repeated SpellsMarker lexemes declarators := by
  induction declarators generalizing lexemes with
  | nil =>
    obtain rfl := List.map_eq_nil_iff.mp h
    exact .nil
  | cons marker rest ih =>
    obtain ⟨mark, others, rfl, hmark, hothers⟩ := List.map_eq_cons_iff.mp h
    have hspells : SpellsMarker [mark] marker :=
      ⟨mark, [], congrArg Prod.fst hmark, fun _ hmem ↦ (nomatch hmem), rfl⟩
    exact .cons hspells (ih hothers)

/-- Where a size word or a name is there, no `int` is put in and the elements are the size words,
the path and the markers. -/
theorem elements_of_worded {ty : TypeName} (h : ty.Worded) :
    ty.elements = (ty.specifiers.map fun size ↦ (TypeSymbol.word, size.text)) ++
      [(TypeSymbol.scope, "::")].intercalate (ty.path.map scopeElements) ++
        ty.declarators.map markerElement := by
  rw [elements_eq, spelledElements, if_neg]
  rw [Bool.and_eq_true, List.isEmpty_map, List.isEmpty_iff, List.isEmpty_iff]
  exact fun ⟨hspecifiers, hpath⟩ ↦ h.elim (· hspecifiers) (· hpath)

/-- Lexemes that are the elements of a type derive it. -/
theorem derives_of_elements {ty : TypeName}
    (h : ty.Everywhere fun level ↦ level.Spellable ∧ level.Worded) :
    ∀ lexemes : List (Lexeme TypeSymbol), lexemes.map content = ty.elements →
      Derives .type lexemes ty := by
  induction h with
  | @mk ty hty _ ih =>
    obtain ⟨hnames, hworded⟩ := hty
    intro lexemes hlexemes
    rw [elements_of_worded hworded] at hlexemes
    obtain ⟨front, marks, rfl, hfront, hmarks⟩ := List.map_eq_append_iff.mp hlexemes
    obtain ⟨words, name, rfl, hwords, hname⟩ := List.map_eq_append_iff.mp hfront
    obtain ⟨hsized, hsizes⟩ := prefix_of_sizeElements hwords
    have hmarkers := repeated_of_markerElements hmarks
    obtain ⟨specifiers, path, declarators⟩ := ty
    obtain rfl : sizes words = specifiers := hsizes
    by_cases hpath : path = []
    · subst hpath
      obtain rfl := List.map_eq_nil_iff.mp hname
      rw [List.append_nil]
      exact .unnamed hsized hmarkers
    · have hcomponents := derives_path_of_separated <| separated_of_intercalate hpath
        (fun scope hscope lexemes ↦ derives_of_scopeElements (hnames scope hscope).1
          (hnames scope hscope).2 (ih scope hscope)) hname
      have hnone : ∀ lexeme ∈ ([] : List (Lexeme TypeSymbol)), isDropped lexeme = true := by simp
      rw [List.append_assoc]
      exact .named hsized (.inl rfl) hcomponents hnone hmarkers

/-- The spelling of a type is read as that type. -/
theorem parse?_text {ty : TypeName}
    (h : ty.Everywhere fun level ↦ level.Spellable ∧ level.Worded) : parse? ty.text = some ty := by
  have hyields := legible_text (h.imp fun _ ↦ And.left) [] [] endsWords_nil .nil
  rw [List.append_nil, List.append_nil] at hyields
  obtain ⟨lexemes, hlex, hcontent⟩ := Lexer.exists_lex_of_yields hyields
  have hderives := derives_of_elements h lexemes hcontent
  have hne : lexemes ≠ [] := by
    rintro rfl
    obtain ⟨⟨-, hworded⟩, -⟩ := h
    rw [eq_of_derives_nil hderives] at hworded
    exact hworded.elim (· rfl) (· rfl)
  rw [parse?, hlex]
  exact ofLexemes?_eq_some_iff.mpr ⟨hne, hderives⟩

/-- Spelling and reading are inverse to each other. A type that has a word at every level is read
from its spelling, which is a normal one, and no other such type is spelled so. -/
theorem spelling_inverse {ty : TypeName}
    (h : ty.Everywhere fun level ↦ level.Spellable ∧ level.Worded) :
    parse? ty.text = some ty ∧ normalize ty.text = ty.text ∧
      ∀ other : TypeName, other.Everywhere (fun level ↦ level.Spellable ∧ level.Worded) →
        other.text = ty.text → other = ty := by
  have hread := parse?_text h
  refine ⟨hread, ?_, fun other hother htext ↦ ?_⟩
  · rw [normalize, hread]
  · have hsame := parse?_text hother
    rw [htext, hread] at hsame
    exact (Option.some.inj hsame).symm

/-- A type with size words, nested arguments and several markers. -/
def iteratorType : TypeName :=
  ⟨[.long], [⟨"std", none⟩,
    ⟨"map", some [⟨[.short], [], [.pointer]⟩,
      ⟨[], [⟨"vector", some [⟨[.long], [⟨"int", none⟩], []⟩]⟩], []⟩]⟩,
    ⟨"iterator", none⟩], [.pointer, .reference]⟩

/-- The inverse on a type with size words, template arguments at two levels and three markers. -/
theorem spelling_inverse_of_iterator :
    iteratorType.text = "long std::map<short *, vector<long int> >::iterator *&" ∧
      iteratorType.Everywhere (fun level ↦ level.Spellable ∧ level.Worded) ∧
        parse? "long std::map<short *, vector<long int> >::iterator *&" = some iteratorType := by
  have htext : iteratorType.text = "long std::map<short *, vector<long int> >::iterator *&" := by
    decide +kernel
  have hnames : IsName "std" ∧ IsName "map" ∧ IsName "iterator" ∧ IsName "vector" ∧
      IsName "int" := by decide +kernel
  have hspellable : iteratorType.Everywhere fun level ↦ level.Spellable ∧ level.Worded := by
    simp [iteratorType, everywhere_mk_iff, Spellable, Worded, specifiers, path, hnames]
  exact ⟨htext, hspellable, htext ▸ (spelling_inverse hspellable).1⟩

/-! ### What is read can be spelled -/

/-- A component that can be spelled. -/
def SpellableScope (scope : Scope TypeName) : Prop :=
  IsName scope.name ∧ scope.arguments ≠ some [] ∧
    ∀ arguments, scope.arguments = some arguments →
      ∀ argument ∈ arguments, argument.Everywhere Spellable

/-- What is derived from lexemes whose words are words. -/
def Nonterminal.Sound : (n : Nonterminal) → n.Meaning → Prop
  | .type, ty => ty.Everywhere Spellable
  | .types, arguments => arguments ≠ [] ∧ ∀ argument ∈ arguments, argument.Everywhere Spellable
  | .component, scope => SpellableScope scope
  | .path, scopes => ∀ scope ∈ scopes, SpellableScope scope

/-- The text of a name can stand in a spelling as a name. -/
theorem isName_text {lexeme : Lexeme TypeSymbol} (h : isName lexeme = true)
    (hword : lexeme.kind = .word → IsWord lexeme.text) : IsName lexeme.text := by
  have hkind := kind_of_isName h
  rw [isName, Bool.and_eq_true, Bool.and_eq_true, Bool.not_eq_true', Bool.not_eq_true', isDropped,
    isSize, hkind] at h
  refine ⟨hword hkind, by simpa using h.1.2, by simpa using h.2⟩

/-- Whatever is derived from lexemes can be spelled. -/
theorem sound_of_derives {n : Nonterminal} {lexemes : List (Lexeme TypeSymbol)}
    {meaning : n.Meaning} (h : Derives n lexemes meaning)
    (hwords : ∀ lexeme ∈ lexemes, lexeme.kind = .word → IsWord lexeme.text) : n.Sound meaning := by
  induction h with
  | unnamed _ _ =>
    refine Everywhere.mk ?_ ?_ <;> rintro scope ⟨⟩
  | named _ _ _ _ _ ih =>
    have hpath := ih fun lexeme hmem ↦ hwords lexeme (by simp [hmem])
    exact Everywhere.mk (fun scope hscope ↦ ⟨(hpath scope hscope).1, (hpath scope hscope).2.1⟩)
      (fun scope hscope ↦ (hpath scope hscope).2.2)
  | lastType _ ih => exact ⟨by simp, List.forall_mem_singleton.mpr (ih hwords)⟩
  | moreTypes _ _ _ ihItem ihOthers =>
    have hitem := ihItem fun lexeme hmem ↦ hwords lexeme (by simp [hmem])
    have hothers := ihOthers fun lexeme hmem ↦ hwords lexeme (by simp [hmem])
    exact ⟨by simp, List.forall_mem_cons.mpr ⟨hitem, hothers.2⟩⟩
  | plain hname => exact ⟨isName_text hname (hwords _ List.mem_cons_self), by simp, by simp⟩
  | template hname _ _ _ ih =>
    have hinner := ih fun lexeme hmem ↦ hwords lexeme (by simp [hmem])
    refine ⟨isName_text hname (hwords _ List.mem_cons_self), by simpa using hinner.1, ?_⟩
    rintro arguments ⟨⟩
    exact hinner.2
  | lastComponent _ ih => exact List.forall_mem_singleton.mpr (ih hwords)
  | moreComponents _ _ _ ihItem ihOthers =>
    have hitem := ihItem fun lexeme hmem ↦ hwords lexeme (by simp [hmem])
    have hothers := ihOthers fun lexeme hmem ↦ hwords lexeme (by simp [hmem])
    exact List.forall_mem_cons.mpr ⟨hitem, hothers⟩

/-- The names of a type that is read are words, and where there are arguments there is one at
least. -/
theorem spellable_of_parse? {input : String} {ty : TypeName} (h : parse? input = some ty) :
    ty.Everywhere Spellable := by
  rw [parse?] at h
  split at h
  · rename_i lexemes hlex
    obtain ⟨-, hderives⟩ := ofLexemes?_eq_some_iff.mp h
    exact sound_of_derives hderives (isWord_of_lexes (Lexer.lex_eq_ok_iff.mp hlex))
  · cases h

end DebugLink.TypeName
