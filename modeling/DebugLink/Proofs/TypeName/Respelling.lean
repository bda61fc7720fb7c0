import DebugLink.Proofs.TypeName.Completion

/-!
What the normal spelling does to the lexical elements of a type. It drops the words that are not
kept and leading scope operators, and it puts `int` in where a type begins that has no word
(`respelled_of_derives`). It does so where nothing is written at all as well. A list of arguments
has one for each of its places then (`typeCounts_respelled`), which are more than there were types
if a place is vacant (`typeCounts_eq_iff`).
-/

set_option autoImplicit false

namespace DebugLink.TypeName

open Lexer (content)

variable {lexeme : Lexeme TypeSymbol} {lexemes rest : List (Lexeme TypeSymbol)}

/-! ### Places -/

/-- Whether a type begins behind the lexeme. -/
def opensType (lexeme : Lexeme TypeSymbol) : Bool :=
  lexeme.kind = .less || lexeme.kind = .comma

/-- Whether the lexeme is a comma or a bracket. -/
def isBoundary (lexeme : Lexeme TypeSymbol) : Bool :=
  opensType lexeme || lexeme.kind = .greater

/-- The places behind brackets and commas where a type begins, each as the lexemes from there
on. -/
def placesBehind : List (Lexeme TypeSymbol) → List (List (Lexeme TypeSymbol))
  | [] => []
  | lexeme :: rest => if opensType lexeme then rest :: placesBehind rest else placesBehind rest

/-- The places where a type begins. -/
def places (lexemes : List (Lexeme TypeSymbol)) : List (List (Lexeme TypeSymbol)) :=
  lexemes :: placesBehind lexemes

/-- The lexemes up to the next comma or bracket. -/
def stretch (place : List (Lexeme TypeSymbol)) : List (Lexeme TypeSymbol) :=
  place.takeWhile fun lexeme ↦ !isBoundary lexeme

/-- Whether the type that begins at a place is spelled without a size word and a name. -/
def isWordless (place : List (Lexeme TypeSymbol)) : Bool :=
  (stretch place).all fun lexeme ↦ !isSize lexeme && !isName lexeme

/-- Whether the type that begins at a place is spelled with a sign. -/
def isSigned (place : List (Lexeme TypeSymbol)) : Bool :=
  (stretch place).any fun lexeme ↦
    lexeme.kind = .word && (lexeme.text = "signed" || lexeme.text = "unsigned")

/-- Whether nothing is written at a place. -/
def isVacant (place : List (Lexeme TypeSymbol)) : Bool :=
  place.head?.all fun lexeme ↦ lexeme.kind = .comma || lexeme.kind = .greater

/-! ### Lexemes -/

/-- Only words are dropped. -/
theorem isDropped_of_kind (h : lexeme.kind ≠ .word) : isDropped lexeme = false := by
  simp [isDropped, h]

/-- Only words are size words. -/
theorem isSize_of_kind (h : lexeme.kind ≠ .word) : isSize lexeme = false := by
  simp [isSize, h]

/-- A size word is read from its own text. -/
theorem text_of_sizeWord? {text : String} {size : SizeWord} (h : sizeWord? text = some size) :
    size.text = text := by
  unfold sizeWord? at h
  split at h <;> cases h <;> rfl

/-- A lexeme that is not a word is spelled as its kind says. -/
theorem content_of_kind {literal : TypeSymbol × String} (hliteral : literal ∈ literals)
    (hkind : lexeme.kind = literal.1) (h : lexeme.kind ≠ .word → content lexeme ∈ literals) :
    content lexeme = literal := by
  have hword : ∀ literal ∈ literals, literal.1 ≠ .word := by decide
  have hunique : ∀ literal ∈ literals, ∀ other ∈ literals,
      literal.1 = other.1 → literal = other := by decide
  exact hunique _ (h (hkind ▸ hword literal hliteral)) literal hliteral hkind

/-- A marker is neither a word nor a scope operator, and no type begins or ends at it. -/
theorem kind_of_symbol {mark : Lexeme TypeSymbol} {marker : Marker}
    (h : mark.kind = marker.symbol) :
    mark.kind ≠ .word ∧ mark.kind ≠ .scope ∧ isBoundary mark = false := by
  rw [isBoundary, opensType, h]
  cases marker <;> exact ⟨by decide, by decide, rfl⟩

/-! ### Respelling -/

section Respelled

variable (missing : List (Lexeme TypeSymbol) → Bool)

/-- What is put in where a type begins from which a word is missing. -/
def implied (place : List (Lexeme TypeSymbol)) : List (TypeSymbol × String) :=
  if missing place then [(.word, "int")] else []

/-- The elements that are left of lexemes inside a type. A type is at its front as long as nothing
has come of it but words that may stand before a name. -/
def respelledFrom : (atFront : Bool) → List (Lexeme TypeSymbol) → List (TypeSymbol × String)
  | _, [] => []
  | atFront, lexeme :: rest =>
    if isDropped lexeme then respelledFrom atFront rest
    else if atFront && lexeme.kind = .scope then respelledFrom false rest
    else if opensType lexeme then
      content lexeme :: (implied missing rest ++ respelledFrom true rest)
    else content lexeme :: respelledFrom (atFront && isSize lexeme) rest

/-- The elements that are left of lexemes without dropped words and leading scope operators, with
`int` put in where a type begins from which a word is missing. -/
def respelled (lexemes : List (Lexeme TypeSymbol)) : List (TypeSymbol × String) :=
  implied missing lexemes ++ respelledFrom missing true lexemes

variable {missing}

/-- A dropped word leaves nothing. -/
theorem respelledFrom_of_isDropped (h : isDropped lexeme = true) (atFront : Bool)
    (rest : List (Lexeme TypeSymbol)) :
    respelledFrom missing atFront (lexeme :: rest) = respelledFrom missing atFront rest := by
  rw [respelledFrom, if_pos h]

/-- Behind a comma or an opening bracket a type begins. -/
theorem respelledFrom_of_opensType (h : opensType lexeme = true) (atFront : Bool)
    (rest : List (Lexeme TypeSymbol)) :
    respelledFrom missing atFront (lexeme :: rest) = content lexeme :: respelled missing rest := by
  have hkind : lexeme.kind = .less ∨ lexeme.kind = .comma := by simpa [opensType] using h
  have hword : lexeme.kind ≠ .word := by rcases hkind with h | h <;> simp [h]
  have hscope : lexeme.kind ≠ .scope := by rcases hkind with h | h <;> simp [h]
  rw [respelledFrom, isDropped_of_kind hword, if_neg Bool.false_ne_true, if_neg (by simp [hscope]),
    if_pos h]
  rfl

/-- Any other lexeme that is kept stays as it is. -/
theorem respelledFrom_of_kept (hdropped : isDropped lexeme = false)
    (hopens : opensType lexeme = false) {atFront : Bool}
    (hscope : atFront = true → lexeme.kind ≠ .scope) (rest : List (Lexeme TypeSymbol)) :
    respelledFrom missing atFront (lexeme :: rest) =
      content lexeme :: respelledFrom missing (atFront && isSize lexeme) rest := by
  rw [respelledFrom, hdropped, if_neg Bool.false_ne_true, if_neg (by simpa using hscope), hopens,
    if_neg Bool.false_ne_true]

/-- Where a type ends nothing depends on what has come of it. -/
theorem respelledFrom_of_endsMarkers (h : EndsMarkers rest) (atFront : Bool) :
    respelledFrom missing atFront rest = respelledFrom missing false rest := by
  cases rest with
  | nil => rfl
  | cons lexeme others =>
    have hkind := h lexeme rfl
    have hword : lexeme.kind ≠ .word := by rcases hkind with h | h <;> simp [h]
    have hscope : lexeme.kind ≠ .scope := by rcases hkind with h | h <;> simp [h]
    have hdropped := isDropped_of_kind hword
    cases hopens : opensType lexeme with
    | true => rw [respelledFrom_of_opensType hopens, respelledFrom_of_opensType hopens]
    | false =>
      rw [respelledFrom_of_kept hdropped hopens fun _ ↦ hscope,
        respelledFrom_of_kept hdropped hopens fun _ ↦ hscope, isSize_of_kind hword,
        Bool.and_false, Bool.and_false]

/-- Dropped words leave nothing, however many there are. -/
theorem respelledFrom_dropped (h : ∀ lexeme ∈ lexemes, isDropped lexeme = true) (atFront : Bool)
    (rest : List (Lexeme TypeSymbol)) :
    respelledFrom missing atFront (lexemes ++ rest) = respelledFrom missing atFront rest := by
  induction lexemes with
  | nil => rfl
  | cons lexeme others ih =>
    obtain ⟨hlexeme, hothers⟩ := List.forall_mem_cons.mp h
    rw [List.cons_append, respelledFrom_of_isDropped hlexeme, ih hothers]

/-- Of the words in front of a name the size words are left. -/
theorem respelledFrom_words (h : ∀ lexeme ∈ lexemes, isPrefix lexeme = true)
    (rest : List (Lexeme TypeSymbol)) :
    respelledFrom missing true (lexemes ++ rest) =
      ((sizes lexemes).map fun size ↦ (TypeSymbol.word, size.text)) ++
        respelledFrom missing true rest := by
  induction lexemes with
  | nil => rfl
  | cons lexeme others ih =>
    obtain ⟨hlexeme, hothers⟩ := List.forall_mem_cons.mp h
    have hkind := kind_of_isPrefix hlexeme
    rw [List.cons_append]
    cases hdropped : isDropped lexeme with
    | true =>
      rw [respelledFrom_of_isDropped hdropped, ih hothers, sizes, sizes, List.filterMap_cons,
        sizeWord?_of_isDropped hdropped]
    | false =>
      have hsize : isSize lexeme = true := by simpa [isPrefix, hdropped] using hlexeme
      have hsome : (sizeWord? lexeme.text).isSome = true := by simpa [isSize, hkind] using hsize
      obtain ⟨size, hword⟩ := Option.isSome_iff_exists.mp hsome
      have hcontent : content lexeme = (TypeSymbol.word, size.text) := by
        rw [content, hkind, text_of_sizeWord? hword]
      rw [respelledFrom_of_kept hdropped (by simp [opensType, hkind]) (by simp [hkind]), hsize,
        Bool.and_self, ih hothers, hcontent, sizes, sizes, List.filterMap_cons, hword]
      rfl

/-- Markers are left. -/
theorem respelledFrom_markers {markers : List Marker}
    (hmarks : Parser.Repeated SpellsMarker lexemes markers)
    (hspelled : ∀ lexeme ∈ lexemes, lexeme.kind ≠ .word → content lexeme ∈ literals)
    (hrest : EndsMarkers rest) (atFront : Bool) :
    respelledFrom missing atFront (lexemes ++ rest) =
      markers.map markerElement ++ respelledFrom missing false rest := by
  induction hmarks generalizing atFront with
  | nil => exact respelledFrom_of_endsMarkers hrest atFront
  | @cons item others marker markers hitem _ ih =>
    obtain ⟨mark, dropped, hmark, hdropped, rfl⟩ := hitem
    obtain ⟨hword, hscope, hboundary⟩ := kind_of_symbol hmark
    have hopens : opensType mark = false := (Bool.or_eq_false_iff.mp hboundary).1
    have hcontent : content mark = markerElement marker :=
      content_of_kind (by cases marker <;> decide) hmark (hspelled mark (by simp))
    have hothers := ih (fun lexeme hmem ↦ hspelled lexeme (by simp [hmem])) false
    rw [List.append_assoc, List.cons_append,
      respelledFrom_of_kept (isDropped_of_kind hword) hopens fun _ ↦ hscope, hcontent,
      isSize_of_kind hword, Bool.and_false, respelledFrom_dropped hdropped, hothers]
    rfl

end Respelled

/-! ### Types without a word -/

/-- Whether a type has no word is seen up to the next comma or bracket. -/
theorem isWordless_append (h : ∀ lexeme ∈ lexemes, isBoundary lexeme = false)
    (rest : List (Lexeme TypeSymbol)) :
    isWordless (lexemes ++ rest) =
      ((lexemes.all fun lexeme ↦ !isSize lexeme && !isName lexeme) && isWordless rest) := by
  have hplain : ∀ lexeme ∈ lexemes, (!isBoundary lexeme) = true := fun lexeme hmem ↦ by
    rw [h lexeme hmem, Bool.not_false]
  rw [isWordless, stretch, List.takeWhile_append_of_pos hplain, List.all_append]
  rfl

/-- Words are no boundaries. -/
theorem isBoundary_of_kind (h : lexeme.kind = .word) : isBoundary lexeme = false := by
  simp [isBoundary, opensType, h]

/-- A type that ends where it begins has no word. -/
theorem isWordless_of_isBoundary (h : isBoundary lexeme = true) (rest : List (Lexeme TypeSymbol)) :
    isWordless (lexeme :: rest) = true := by
  simp [isWordless, stretch, h]

/-- There is no word where the markers of a type end. -/
theorem isWordless_of_endsMarkers (h : EndsMarkers rest) : isWordless rest = true := by
  cases rest with
  | nil => rfl
  | cons lexeme others =>
    refine isWordless_of_isBoundary ?_ others
    rcases h lexeme rfl with hkind | hkind <;> simp [isBoundary, opensType, hkind]

/-- A lexeme that is neither a size word nor a name does not count. -/
theorem isWordless_cons (hboundary : isBoundary lexeme = false) (hsize : isSize lexeme = false)
    (hname : isName lexeme = false) (rest : List (Lexeme TypeSymbol)) :
    isWordless (lexeme :: rest) = isWordless rest := by
  simp [isWordless, stretch, hboundary, hsize, hname]

/-- A dropped word does not count as a word of the type. -/
theorem isWordless_cons_of_isDropped (h : isDropped lexeme = true)
    (rest : List (Lexeme TypeSymbol)) : isWordless (lexeme :: rest) = isWordless rest := by
  have hsize : isSize lexeme = false := by simp [isSize, sizeWord?_of_isDropped h]
  exact isWordless_cons (isBoundary_of_kind (kind_of_isDropped h)) hsize (by simp [isName, h]) rest

/-- What is neither a word nor a boundary is passed over in the search for a word. -/
theorem isWordless_cons_of_kind (hword : lexeme.kind ≠ .word)
    (hboundary : isBoundary lexeme = false) (rest : List (Lexeme TypeSymbol)) :
    isWordless (lexeme :: rest) = isWordless rest :=
  isWordless_cons hboundary (isSize_of_kind hword) (by simp [isName, hword]) rest

/-- A place where a name comes has a word. -/
theorem isWordless_cons_of_isName (h : isName lexeme = true) (rest : List (Lexeme TypeSymbol)) :
    isWordless (lexeme :: rest) = false := by
  simp [isWordless, stretch, isBoundary_of_kind (kind_of_isName h), h]

/-- Among words that may stand before a name only size words count. -/
theorem isWordless_words (h : ∀ lexeme ∈ lexemes, isPrefix lexeme = true)
    (rest : List (Lexeme TypeSymbol)) :
    isWordless (lexemes ++ rest) = ((sizes lexemes).isEmpty && isWordless rest) := by
  rw [isWordless_append fun lexeme hmem ↦ isBoundary_of_kind (kind_of_isPrefix (h lexeme hmem))]
  congr 1
  induction lexemes with
  | nil => rfl
  | cons lexeme others ih =>
    obtain ⟨hlexeme, hothers⟩ := List.forall_mem_cons.mp h
    have hname : isName lexeme = false := Bool.eq_false_iff.mpr fun hname ↦ by
      rw [isPrefix_of_isName hname] at hlexeme
      cases hlexeme
    have hsize : isSize lexeme = (sizeWord? lexeme.text).isSome := by
      simp [isSize, kind_of_isPrefix hlexeme]
    rw [List.all_cons, ih hothers, hname, hsize, sizes, sizes, List.filterMap_cons]
    cases sizeWord? lexeme.text <;> simp

/-- Markers at the end of a type are no words. -/
theorem isWordless_markers {markers : List Marker}
    (hmarks : Parser.Repeated SpellsMarker lexemes markers) (hrest : EndsMarkers rest) :
    isWordless (lexemes ++ rest) = true := by
  induction hmarks with
  | nil => exact isWordless_of_endsMarkers hrest
  | @cons item others marker markers hitem _ ih =>
    obtain ⟨mark, dropped, hmark, hdropped, rfl⟩ := hitem
    obtain ⟨hword, -, hboundary⟩ := kind_of_symbol hmark
    have hprefix : ∀ lexeme ∈ dropped, isPrefix lexeme = true := fun lexeme hmem ↦ by
      rw [isPrefix, hdropped lexeme hmem, Bool.true_or]
    have hsizes : sizes dropped = [] := List.filterMap_eq_nil_iff.mpr fun lexeme hmem ↦
      sizeWord?_of_isDropped (hdropped lexeme hmem)
    rw [List.append_assoc, List.cons_append, isWordless_cons_of_kind hword hboundary,
      isWordless_words hprefix, hsizes, ih]
    rfl

/-! ### Respelling what is derived -/

/-- Respelling gives the elements of what is derived, whatever may follow. -/
def Nonterminal.Respells : (n : Nonterminal) → List (Lexeme TypeSymbol) → n.Meaning → Prop
  | .type, lexemes, ty => ∀ rest, EndsMarkers rest →
      respelled isWordless (lexemes ++ rest) = ty.elements ++ respelledFrom isWordless false rest
  | .types, lexemes, arguments => ∀ rest, EndsMarkers rest →
      respelled isWordless (lexemes ++ rest) =
        [(TypeSymbol.comma, ",")].intercalate (arguments.map elements) ++
          respelledFrom isWordless false rest
  | .component, lexemes, scope => ∀ atFront rest,
      respelledFrom isWordless atFront (lexemes ++ rest) =
        scopeElements scope ++ respelledFrom isWordless false rest
  | .path, lexemes, scopes => ∀ atFront rest,
      respelledFrom isWordless atFront (lexemes ++ rest) =
        [(TypeSymbol.scope, "::")].intercalate (scopes.map scopeElements) ++
          respelledFrom isWordless false rest

/-- Between brackets at least one type is derived, be it an empty one. -/
theorem arguments_ne_nil {arguments : List TypeName} (h : Derives .types lexemes arguments) :
    arguments ≠ [] := by
  cases h <;> simp

/-- A path has at least one component. -/
theorem path_ne_nil {path : List (Scope TypeName)} (h : Derives .path lexemes path) :
    path ≠ [] := by
  cases h <;> simp

/-- A type without a name is respelled as its size words, or `int`, and its markers. -/
theorem respelled_unnamed {words marks : List (Lexeme TypeSymbol)} {markers : List Marker}
    (hwords : ∀ lexeme ∈ words, isPrefix lexeme = true)
    (hmarks : Parser.Repeated SpellsMarker marks markers)
    (hspelled : ∀ lexeme ∈ marks, lexeme.kind ≠ .word → content lexeme ∈ literals) :
    Nonterminal.type.Respells (words ++ marks) ⟨sizes words, [], markers⟩ := by
  intro rest hrest
  rw [respelled, implied, List.append_assoc, isWordless_words hwords,
    isWordless_markers hmarks hrest, Bool.and_true, respelledFrom_words hwords,
    respelledFrom_markers hmarks hspelled hrest, elements_eq, specifiers, path, declarators,
    spelledElements]
  cases sizes words <;> simp

/-- A type with a name begins with a word, so nothing is put in. -/
theorem respelled_named {words leading name dropped marks : List (Lexeme TypeSymbol)}
    {path : List (Scope TypeName)} {markers : List Marker}
    (hwords : ∀ lexeme ∈ words, isPrefix lexeme = true) (hleading : LeadingScope leading)
    (hpath : Derives .path name path) (hname : Nonterminal.path.Respells name path)
    (hdropped : ∀ lexeme ∈ dropped, isDropped lexeme = true)
    (hmarks : Parser.Repeated SpellsMarker marks markers)
    (hspelled : ∀ lexeme ∈ marks, lexeme.kind ≠ .word → content lexeme ∈ literals) :
    Nonterminal.type.Respells (words ++ (leading ++ (name ++ (dropped ++ marks))))
      ⟨sizes words, path, markers⟩ := by
  intro rest hrest
  have hleft : ∀ tail, respelledFrom isWordless true (leading ++ (name ++ tail)) =
      [(TypeSymbol.scope, "::")].intercalate (path.map scopeElements) ++
        respelledFrom isWordless false tail := by
    intro tail
    rcases hleading with rfl | ⟨mark, hmark, rfl⟩
    · exact hname true tail
    · have hkept : isDropped mark = false := isDropped_of_kind (by simp [hmark])
      rw [List.singleton_append, respelledFrom, hkept, if_neg Bool.false_ne_true,
        if_pos (by simp [hmark])]
      exact hname false tail
  have hword : ∀ tail, isWordless (leading ++ (name ++ tail)) = false := by
    obtain ⟨first, others, rfl, hfirst⟩ := hpath.begins (.inr rfl)
    have hplain : ∀ lexeme ∈ leading, isBoundary lexeme = false := by
      rcases hleading with rfl | ⟨mark, hmark, rfl⟩
      · simp
      · simp [isBoundary, opensType, hmark]
    intro tail
    rw [isWordless_append hplain, List.cons_append, isWordless_cons_of_isName hfirst,
      Bool.and_false]
  have hworded : Worded ⟨sizes words, path, markers⟩ := .inr (path_ne_nil hpath)
  simp only [List.append_assoc]
  rw [respelled, implied, isWordless_words hwords, hword, Bool.and_false,
    if_neg Bool.false_ne_true, List.nil_append, respelledFrom_words hwords, hleft,
    respelledFrom_dropped hdropped, respelledFrom_markers hmarks hspelled hrest,
    elements_of_worded hworded]
  simp only [List.append_assoc]
  rfl

/-- At the end of the text the markers are over. -/
theorem endsMarkers_nil : EndsMarkers [] := by
  intro lexeme hhead
  cases hhead

/-- At a comma and at a closing bracket the markers are over. -/
theorem endsMarkers_cons (h : lexeme.kind = .comma ∨ lexeme.kind = .greater)
    (rest : List (Lexeme TypeSymbol)) : EndsMarkers (lexeme :: rest) := by
  intro found hhead
  obtain rfl : lexeme = found := by simpa using hhead
  exact h

/-- Commas part the arguments of a list before and after. -/
theorem respelled_moreTypes {comma : Lexeme TypeSymbol} {item others : List (Lexeme TypeSymbol)}
    {ty : TypeName} {arguments : List TypeName} (hcomma : content comma = (.comma, ","))
    (hitem : Nonterminal.type.Respells item ty)
    (hothers : Nonterminal.types.Respells others arguments) (hsome : arguments ≠ []) :
    Nonterminal.types.Respells (item ++ [comma] ++ others) (ty :: arguments) := by
  intro rest hrest
  have hkind : comma.kind = .comma := congrArg Prod.fst hcomma
  have hopens : opensType comma = true := by simp [opensType, hkind]
  rw [List.append_assoc, List.append_assoc, List.singleton_append,
    hitem _ (endsMarkers_cons (.inl hkind) _), respelledFrom_of_opensType hopens, hcomma,
    hothers rest hrest, List.map_cons,
    List.intercalate_cons_of_ne_nil (by simpa using hsome)]
  simp only [List.append_assoc, List.cons_append, List.nil_append]

/-- A name stays and makes that the front of the type is past. -/
theorem respelled_plain {name : Lexeme TypeSymbol} (hname : isName name = true) (atFront : Bool)
    (rest : List (Lexeme TypeSymbol)) :
    respelledFrom isWordless atFront (name :: rest) =
      (.word, name.text) :: respelledFrom isWordless false rest := by
  have hkind := kind_of_isName hname
  have hprefix := isPrefix_of_isName hname
  rw [isPrefix, Bool.or_eq_false_iff] at hprefix
  rw [respelledFrom_of_kept hprefix.1 (by simp [opensType, hkind]) (by simp [hkind]), hprefix.2,
    Bool.and_false, content, hkind]

/-- A component with arguments is respelled as its name and its arguments in brackets. -/
theorem respelled_template {name opening closing : Lexeme TypeSymbol}
    {inner : List (Lexeme TypeSymbol)} {arguments : List TypeName} (hname : isName name = true)
    (hopening : content opening = (.less, "<")) (hclosing : content closing = (.greater, ">"))
    (hinner : Nonterminal.types.Respells inner arguments) :
    Nonterminal.component.Respells (name :: opening :: (inner ++ [closing]))
      ⟨name.text, some arguments⟩ := by
  intro atFront rest
  have hless : opening.kind = .less := congrArg Prod.fst hopening
  have hgreater : closing.kind = .greater := congrArg Prod.fst hclosing
  have hdropped : isDropped closing = false := isDropped_of_kind (by simp [hgreater])
  have hopens : opensType opening = true := by simp [opensType, hless]
  rw [List.cons_append, respelled_plain hname, List.cons_append,
    respelledFrom_of_opensType hopens, hopening, List.append_assoc, List.singleton_append,
    hinner _ (endsMarkers_cons (.inr hgreater) rest),
    respelledFrom_of_kept hdropped (by simp [opensType, hgreater]) (by simp),
    hclosing, Bool.false_and, scopeElements, argumentElements_eq_map]
  simp only [List.append_assoc, List.cons_append, List.nil_append]

/-- Scope operators behind a component stay. -/
theorem respelled_moreComponents {mark : Lexeme TypeSymbol}
    {item others : List (Lexeme TypeSymbol)} {scope : Scope TypeName}
    {path : List (Scope TypeName)} (hmark : content mark = (.scope, "::"))
    (hitem : Nonterminal.component.Respells item scope)
    (hothers : Nonterminal.path.Respells others path) (hsome : path ≠ []) :
    Nonterminal.path.Respells (item ++ [mark] ++ others) (scope :: path) := by
  intro atFront rest
  have hkind : mark.kind = .scope := congrArg Prod.fst hmark
  have hdropped : isDropped mark = false := isDropped_of_kind (by simp [hkind])
  rw [List.append_assoc, List.append_assoc, List.singleton_append, hitem atFront,
    respelledFrom_of_kept hdropped (by simp [opensType, hkind]) (by simp), hmark, Bool.false_and,
    hothers false rest, List.map_cons, List.intercalate_cons_of_ne_nil (by simpa using hsome)]
  simp only [List.append_assoc, List.cons_append, List.nil_append]

/-- Respelling gives the elements of what is derived. -/
theorem respelled_of_derives {n : Nonterminal} {meaning : n.Meaning} (h : Derives n lexemes meaning)
    (hspelled : ∀ lexeme ∈ lexemes, lexeme.kind ≠ .word → content lexeme ∈ literals) :
    n.Respells lexemes meaning := by
  induction h with
  | unnamed hwords hmarks =>
    exact respelled_unnamed hwords hmarks fun lexeme hmem ↦ hspelled lexeme (by simp [hmem])
  | named hwords hleading hpath hdropped hmarks ih =>
    have hname := ih fun lexeme hmem ↦ hspelled lexeme (by simp [hmem])
    exact respelled_named hwords hleading hpath hname hdropped hmarks fun lexeme hmem ↦
      hspelled lexeme (by simp [hmem])
  | lastType _ ih =>
    intro rest hrest
    rw [List.map_singleton, List.intercalate_singleton]
    exact ih hspelled rest hrest
  | moreTypes _ hcomma hothers ihItem ihOthers =>
    refine respelled_moreTypes (content_of_kind (by decide) hcomma (hspelled _ (by simp)))
      (ihItem fun lexeme hmem ↦ hspelled lexeme (by simp [hmem]))
      (ihOthers fun lexeme hmem ↦ hspelled lexeme (by simp [hmem])) (arguments_ne_nil hothers)
  | plain hname =>
    intro atFront rest
    rw [scopeElements]
    exact respelled_plain hname atFront rest
  | template hname hopening _ hclosing ih =>
    exact respelled_template hname
      (content_of_kind (by decide) hopening (hspelled _ (by simp)))
      (content_of_kind (by decide) hclosing (hspelled _ (by simp)))
      (ih fun lexeme hmem ↦ hspelled lexeme (by simp [hmem]))
  | lastComponent _ ih =>
    intro atFront rest
    rw [List.map_singleton, List.intercalate_singleton]
    exact ih hspelled atFront rest
  | moreComponents _ hmark hothers ihItem ihOthers =>
    exact respelled_moreComponents (content_of_kind (by decide) hmark (hspelled _ (by simp)))
      (ihItem fun lexeme hmem ↦ hspelled lexeme (by simp [hmem]))
      (ihOthers fun lexeme hmem ↦ hspelled lexeme (by simp [hmem])) (path_ne_nil hothers)

/-! ### What is put in -/

section Missing

variable {missing fewer : List (Lexeme TypeSymbol) → Bool}

/-- Where fewer words count as missing, no more elements are left. -/
theorem length_respelledFrom_le (h : ∀ place, fewer place = true → missing place = true)
    (atFront : Bool) (lexemes : List (Lexeme TypeSymbol)) :
    (respelledFrom fewer atFront lexemes).length ≤
      (respelledFrom missing atFront lexemes).length := by
  induction lexemes generalizing atFront with
  | nil => exact le_rfl
  | cons lexeme rest ih =>
    have himplied : (implied fewer rest).length ≤ (implied missing rest).length := by
      unfold implied
      split_ifs with hfewer hmissing hmissing
      · exact le_rfl
      · exact absurd (h rest hfewer) hmissing
      · exact Nat.zero_le _
      · exact le_rfl
    rw [respelledFrom, respelledFrom]
    split_ifs
    · exact ih atFront
    · exact ih false
    · simp only [List.length_cons, List.length_append]
      have := ih true
      omega
    · exact Nat.succ_le_succ (ih _)

/-- The elements with words put in at all places of one kind, and with words put in at some of them,
are the same only if these are all. -/
theorem implied_append_eq_iff (h : ∀ place, fewer place = true → missing place = true)
    (place : List (Lexeme TypeSymbol)) :
    implied missing place ++ respelledFrom missing true place =
        implied fewer place ++ respelledFrom fewer true place ↔
      (missing place = true → fewer place = true) ∧
        respelledFrom missing true place = respelledFrom fewer true place := by
  unfold implied
  cases hmissing : missing place with
  | false =>
    have hfewer : fewer place = false := Bool.eq_false_iff.mpr fun hfewer ↦ by
      rw [h place hfewer] at hmissing
      cases hmissing
    simp [hfewer]
  | true =>
    cases hfewer : fewer place with
    | true => simp
    | false =>
      have hlength := length_respelledFrom_le h true place
      refine iff_of_false (fun heq ↦ ?_) (by simp)
      have hsame := congrArg List.length heq
      simp only [if_true, Bool.false_eq_true, if_false, List.length_append, List.length_cons,
        List.length_nil] at hsame
      omega

/-- Behind the front, counting fewer words as missing makes no difference exactly if no place is
counted as missing by one only. -/
theorem respelledFrom_eq_iff (h : ∀ place, fewer place = true → missing place = true)
    (atFront : Bool) (lexemes : List (Lexeme TypeSymbol)) :
    respelledFrom missing atFront lexemes = respelledFrom fewer atFront lexemes ↔
      ∀ place ∈ placesBehind lexemes, missing place = true → fewer place = true := by
  induction lexemes generalizing atFront with
  | nil => simp [respelledFrom, placesBehind]
  | cons lexeme rest ih =>
    by_cases hopens : opensType lexeme = true
    · rw [respelledFrom_of_opensType hopens, respelledFrom_of_opensType hopens, placesBehind,
        if_pos hopens, List.forall_mem_cons, List.cons_inj_right, respelled, respelled,
        implied_append_eq_iff h, ih]
    · rw [respelledFrom, respelledFrom, placesBehind, if_neg hopens, if_neg hopens, if_neg hopens]
      split_ifs
      · exact ih atFront
      · exact ih false
      · rw [List.cons_inj_right]
        exact ih _

/-- Counting fewer words as missing makes no difference exactly if no place is counted as missing by
one only. -/
theorem respelled_eq_iff (h : ∀ place, fewer place = true → missing place = true)
    (lexemes : List (Lexeme TypeSymbol)) :
    respelled missing lexemes = respelled fewer lexemes ↔
      ∀ place ∈ places lexemes, missing place = true → fewer place = true := by
  rw [respelled, respelled, implied_append_eq_iff h, respelledFrom_eq_iff h, places,
    List.forall_mem_cons]

end Missing

/-! ### Lists of arguments -/

/-- How many types there are in each list in angle brackets, in the order in which the lists end,
the text as a whole being the last of them. A place counts for `value`, told whether anything is
written there. Of the list that is innermost `count` places are past, and `written` is about the
place in it that has been reached; `outer` has the counts of the lists around. -/
def typeCounts (value : Bool → Nat) : (count : Nat) → (outer : List Nat) → (written : Bool) →
    List TypeSymbol → List Nat
  | count, outer, written, [] => (count + value written) :: outer.map (· + value true)
  | count, outer, _, .less :: rest => typeCounts value 0 (count :: outer) false rest
  | count, outer, written, .comma :: rest =>
    typeCounts value (count + value written) outer false rest
  | count, outer, written, .greater :: rest =>
    (count + value written) :: typeCounts value (outer.headD 0) outer.tail true rest
  | count, outer, _, _ :: rest => typeCounts value count outer true rest

/-- How many types are written in each list of arguments. -/
def typesWritten (kinds : List TypeSymbol) : List Nat :=
  typeCounts Bool.toNat 0 [] false kinds

/-- How many places each list of arguments has, vacant ones too. -/
def placeCounts (kinds : List TypeSymbol) : List Nat :=
  typeCounts (fun _ ↦ 1) 0 [] false kinds

/-- Whatever is neither a bracket nor a comma only tells that something is written. -/
theorem typeCounts_cons {value : Bool → Nat} {kind : TypeSymbol} (hless : kind ≠ .less)
    (hcomma : kind ≠ .comma) (hgreater : kind ≠ .greater) (count : Nat) (outer : List Nat)
    (written : Bool) (rest : List TypeSymbol) :
    typeCounts value count outer written (kind :: rest) =
      typeCounts value count outer true rest := by
  cases kind <;> first | rfl | contradiction

/-- Something comes at a place, the word that is put in or one that is there. -/
theorem typeCounts_respelled_of {count : Nat} {outer : List Nat}
    (h : ∀ written, written = true ∨ isWordless lexemes = false →
      typeCounts Bool.toNat count outer written
          ((respelledFrom isWordless true lexemes).map Prod.fst) =
        typeCounts (fun _ ↦ 1) count outer false (lexemes.map Lexeme.kind)) :
    typeCounts Bool.toNat count outer false ((respelled isWordless lexemes).map Prod.fst) =
      typeCounts (fun _ ↦ 1) count outer false (lexemes.map Lexeme.kind) := by
  rw [respelled, implied]
  split_ifs with hwordless
  · exact h true (.inl rfl)
  · exact h false (.inr (Bool.eq_false_iff.mpr hwordless))

/-- Respelling leaves no place vacant: in a list of arguments there is a type for each place
afterwards. Whatever is still to come at a place that has nothing yet has a word in it. -/
theorem typeCounts_respelledFrom (lexemes : List (Lexeme TypeSymbol)) (count : Nat)
    (outer : List Nat) (atFront written written' : Bool)
    (h : written = true ∨ isWordless lexemes = false) :
    typeCounts Bool.toNat count outer written
        ((respelledFrom isWordless atFront lexemes).map Prod.fst) =
      typeCounts (fun _ ↦ 1) count outer written' (lexemes.map Lexeme.kind) := by
  induction lexemes generalizing count outer atFront written written' with
  | nil =>
    obtain rfl := h.resolve_right (by simp [isWordless, stretch])
    rfl
  | cons lexeme rest ih =>
    have hrespelled : ∀ count outer,
        typeCounts Bool.toNat count outer false ((respelled isWordless rest).map Prod.fst) =
          typeCounts (fun _ ↦ 1) count outer false (rest.map Lexeme.kind) :=
      fun count outer ↦ typeCounts_respelled_of fun written hword ↦
        ih count outer true written false hword
    have hboundary : isBoundary lexeme = true → written = true := fun hboundary ↦
      h.resolve_right (by simp [isWordless_of_isBoundary hboundary])
    by_cases hopens : opensType lexeme = true
    · have hkind : lexeme.kind = .less ∨ lexeme.kind = .comma := by simpa [opensType] using hopens
      obtain rfl := hboundary (by simp [isBoundary, hopens])
      rw [respelledFrom_of_opensType hopens, List.map_cons, List.map_cons, content]
      rcases hkind with hkind | hkind <;> rw [hkind]
      · exact hrespelled 0 (count :: outer)
      · exact hrespelled (count + 1) outer
    · have hkind : lexeme.kind ≠ .less ∧ lexeme.kind ≠ .comma := by simpa [opensType] using hopens
      rw [respelledFrom, if_neg hopens, List.map_cons]
      split_ifs with hdropped hscope
      · rw [typeCounts_cons hkind.1 hkind.2 (by simp [kind_of_isDropped hdropped])]
        rw [isWordless_cons_of_isDropped hdropped] at h
        exact ih count outer atFront written true h
      · have hscope : lexeme.kind = .scope := by simpa using (Bool.and_eq_true_iff.mp hscope).2
        rw [typeCounts_cons hkind.1 hkind.2 (by simp [hscope])]
        rw [isWordless_cons_of_kind (by simp [hscope]) (by simp [isBoundary, hopens, hscope])] at h
        exact ih count outer false written true h
      · rw [List.map_cons, content]
        by_cases hgreater : lexeme.kind = .greater
        · obtain rfl := hboundary (by simp [isBoundary, hgreater])
          rw [hgreater]
          exact congrArg ((count + 1) :: ·) (ih _ _ _ true true (.inl rfl))
        · rw [typeCounts_cons hkind.1 hkind.2 hgreater, typeCounts_cons hkind.1 hkind.2 hgreater]
          exact ih count outer _ true true (.inl rfl)

/-- In every list as many types are written after respelling as there were places before it. -/
theorem typeCounts_respelled (lexemes : List (Lexeme TypeSymbol)) (count : Nat)
    (outer : List Nat) :
    typeCounts Bool.toNat count outer false ((respelled isWordless lexemes).map Prod.fst) =
      typeCounts (fun _ ↦ 1) count outer false (lexemes.map Lexeme.kind) :=
  typeCounts_respelled_of fun written h ↦
    typeCounts_respelledFrom lexemes count outer true written false h

/-- Where nothing is written at a place fewer types are counted there than places. -/
theorem typeCounts_eq_iff (lexemes : List (Lexeme TypeSymbol)) {count count' : Nat}
    {outer outer' : List Nat} (hcount : count ≤ count') (houter : List.Forall₂ (· ≤ ·) outer outer')
    (written : Bool) :
    typeCounts Bool.toNat count outer written (lexemes.map Lexeme.kind) =
        typeCounts (fun _ ↦ 1) count' outer' written (lexemes.map Lexeme.kind) ↔
      count = count' ∧ outer = outer' ∧ (written = false → isVacant lexemes = false) ∧
        ∀ place ∈ placesBehind lexemes, isVacant place = false := by
  induction lexemes generalizing count count' outer outer' written with
  | nil =>
    have houter : outer.map (· + 1) = outer'.map (· + 1) ↔ outer = outer' :=
      (List.map_injective_iff.mpr fun _ _ ↦ Nat.add_right_cancel).eq_iff
    show (count + written.toNat) :: outer.map (· + 1) = (count' + 1) :: outer'.map (· + 1) ↔ _
    rw [List.cons.injEq, houter]
    cases written <;> simp [isVacant, placesBehind]
    omega
  | cons lexeme rest ih =>
    have hpast : count + written.toNat ≤ count' + 1 :=
      Nat.add_le_add hcount (Bool.toNat_le written)
    rw [List.map_cons, placesBehind]
    cases hkind : lexeme.kind with
    | less =>
      show typeCounts Bool.toNat 0 (count :: outer) false (rest.map Lexeme.kind) =
        typeCounts (fun _ ↦ 1) 0 (count' :: outer') false (rest.map Lexeme.kind) ↔ _
      rw [ih le_rfl (.cons hcount houter) false, if_pos (by simp [opensType, hkind])]
      simp [isVacant, hkind, and_assoc]
    | comma =>
      show typeCounts Bool.toNat (count + written.toNat) outer false (rest.map Lexeme.kind) =
        typeCounts (fun _ ↦ 1) (count' + 1) outer' false (rest.map Lexeme.kind) ↔ _
      rw [ih hpast houter false, if_pos (by simp [opensType, hkind])]
      cases written <;> simp [isVacant, hkind]
      omega
    | greater =>
      have houter' : outer = outer' ↔
          outer.headD 0 = outer'.headD 0 ∧ outer.tail = outer'.tail := by
        cases houter <;> simp
      have hhead : outer.headD 0 ≤ outer'.headD 0 := by
        cases houter with
        | nil => exact le_rfl
        | cons hfirst _ => exact hfirst
      have htail : List.Forall₂ (· ≤ ·) outer.tail outer'.tail := by
        cases houter with
        | nil => exact .nil
        | cons _ hrest => exact hrest
      show (count + written.toNat) :: typeCounts Bool.toNat (outer.headD 0) outer.tail true _ =
        (count' + 1) :: typeCounts (fun _ ↦ 1) (outer'.headD 0) outer'.tail true _ ↔ _
      rw [List.cons.injEq, ih hhead htail true, if_neg (by simp [opensType, hkind]), houter']
      cases written <;> simp [isVacant, hkind, and_assoc]
      omega
    | word | scope | star | ampersand =>
      rw [typeCounts_cons (by decide) (by decide) (by decide),
        typeCounts_cons (by decide) (by decide) (by decide), ih hcount houter true,
        if_neg (by simp [opensType, hkind])]
      simp [isVacant, hkind]

/-! ### Normal spellings -/

/-- Whether the type that begins at a place is spelled with a sign only. -/
def isSignOnly (place : List (Lexeme TypeSymbol)) : Bool :=
  isWordless place && isSigned place

/-- The lexical elements of a normal spelling are those of the text without dropped words and
leading scope operators, and with `int` wherever a type is spelled without a size word and a name.
These are places with a sign only, unless some type has no sign either. A list of arguments has an
argument for each of its places, and so as many as types were written in it unless a place is
vacant. -/
theorem lexemes_normalize {input : String} {ty : TypeName} (h : parse? input = some ty) :
    ∃ lexemes spelled, lexer.lex 0 input = .ok lexemes ∧
      lexer.lex 0 (normalize input) = .ok spelled ∧
      spelled.map content = respelled isWordless lexemes ∧
      (spelled.map content = respelled isSignOnly lexemes ↔
        ∀ place ∈ places lexemes, isWordless place = true → isSigned place = true) ∧
      typesWritten (spelled.map Lexeme.kind) = placeCounts (lexemes.map Lexeme.kind) ∧
      (typesWritten (spelled.map Lexeme.kind) = typesWritten (lexemes.map Lexeme.kind) ↔
        ∀ place ∈ places lexemes, isVacant place = false) := by
  have hyields := legible_text (spellable_of_parse? h) [] [] endsWords_nil .nil
  rw [List.append_nil, List.append_nil, ← normalize_of_parse? h] at hyields
  obtain ⟨spelled, hspelled, hcontent⟩ := Lexer.exists_lex_of_yields hyields
  rw [parse?] at h
  split at h
  · rename_i lexemes hlex
    obtain ⟨-, hderives⟩ := ofLexemes?_eq_some_iff.mp h
    have hliterals := mem_literals_of_lexes (Lexer.lex_eq_ok_iff.mp hlex)
    have hrespelled : respelled isWordless lexemes = ty.elements := by
      have hall := respelled_of_derives hderives hliterals [] endsMarkers_nil
      rwa [List.append_nil, respelledFrom, List.append_nil] at hall
    have hfewer : ∀ place, isSignOnly place = true → isWordless place = true := fun place hplace ↦
      (Bool.and_eq_true_iff.mp hplace).1
    have hcounts : typesWritten (spelled.map Lexeme.kind) =
        placeCounts (lexemes.map Lexeme.kind) := by
      have hkinds : spelled.map Lexeme.kind =
          (respelled isWordless lexemes).map Prod.fst := by
        rw [hrespelled, ← hcontent, List.map_map]
        rfl
      rw [hkinds]
      exact typeCounts_respelled lexemes 0 []
    refine ⟨lexemes, spelled, hlex, hspelled, hcontent.trans hrespelled.symm, ?_, hcounts, ?_⟩
    · rw [hcontent, ← hrespelled, respelled_eq_iff hfewer]
      simp +contextual [isSignOnly]
    · rw [hcounts, eq_comm, places, List.forall_mem_cons]
      refine (typeCounts_eq_iff lexemes le_rfl .nil false).trans ?_
      simp
  · cases h

/-- A sign alone is spelled `int`, and a leading scope operator is dropped. -/
theorem lexemes_normalize_of_map :
    (parse? "map<unsigned,::key>").isSome = true ∧
      normalize "map<unsigned,::key>" = "map<int, key>" ∧
      ∃ lexemes spelled, lexer.lex 0 "map<unsigned,::key>" = .ok lexemes ∧
        lexer.lex 0 "map<int, key>" = .ok spelled ∧
        spelled.map content = respelled isSignOnly lexemes ∧
        typesWritten (spelled.map Lexeme.kind) = typesWritten (lexemes.map Lexeme.kind) := by
  have hsome : (parse? "map<unsigned,::key>").isSome = true := by decide +kernel
  have htext : normalize "map<unsigned,::key>" = "map<int, key>" := by decide +kernel
  have hplaces : ∀ place ∈ places ((lexer.lex 0 "map<unsigned,::key>").toOption.getD []),
      (isWordless place = true → isSigned place = true) ∧ isVacant place = false := by
    decide +kernel
  obtain ⟨ty, hparse⟩ := Option.isSome_iff_exists.mp hsome
  obtain ⟨lexemes, spelled, hlex, hspelled, -, hsigned, -, hvacant⟩ := lexemes_normalize hparse
  rw [hlex] at hplaces
  rw [htext] at hspelled
  exact ⟨hsome, htext, lexemes, spelled, hlex, hspelled,
    hsigned.mpr fun place hplace ↦ (hplaces place hplace).1,
    hvacant.mpr fun place hplace ↦ (hplaces place hplace).2⟩

/-- No type is written between the brackets of `std::tuple<>`, and one comes out. -/
theorem not_always_respelled :
    normalize "std::tuple<>" = "std::tuple<int>" ∧
      ¬ ∀ (input : String) (ty : TypeName), parse? input = some ty →
        ∃ lexemes spelled, lexer.lex 0 input = .ok lexemes ∧
          lexer.lex 0 (normalize input) = .ok spelled ∧
          spelled.map content = respelled isSignOnly lexemes ∧
          typesWritten (spelled.map Lexeme.kind) = typesWritten (lexemes.map Lexeme.kind) := by
  have hsome : (parse? "std::tuple<>").isSome = true := by decide +kernel
  have htext : normalize "std::tuple<>" = "std::tuple<int>" := by decide +kernel
  have hbefore : (lexer.lex 0 "std::tuple<>").toOption.map
      (fun lexemes ↦ typesWritten (lexemes.map Lexeme.kind)) = some [0, 1] := by decide +kernel
  have hafter : (lexer.lex 0 "std::tuple<int>").toOption.map
      (fun lexemes ↦ typesWritten (lexemes.map Lexeme.kind)) = some [1, 1] := by decide +kernel
  refine ⟨htext, fun h ↦ ?_⟩
  obtain ⟨ty, hparse⟩ := Option.isSome_iff_exists.mp hsome
  obtain ⟨lexemes, spelled, hlex, hspelled, -, hcounts⟩ := h _ _ hparse
  rw [hlex] at hbefore
  rw [htext] at hspelled
  rw [hspelled] at hafter
  have hzero : typesWritten (lexemes.map Lexeme.kind) = [0, 1] := Option.some.inj hbefore
  have hone : typesWritten (spelled.map Lexeme.kind) = [1, 1] := Option.some.inj hafter
  rw [hzero, hone] at hcounts
  exact absurd hcounts (by decide)

end DebugLink.TypeName
