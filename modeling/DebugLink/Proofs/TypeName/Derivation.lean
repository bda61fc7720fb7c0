import DebugLink.Proofs.Parser.Derived
import DebugLink.Proofs.Text.Runs
import DebugLink.TypeName.Grammar

/-!
The context-free grammar of types, and that the parser reads exactly its language. `Derives` has one
constructor for each production, and says which type a derivation is one of: size words are kept,
dropped words and a leading scope operator are not.

`read_of_derives` is completeness. What is derived is read as a whole wherever a list could go on or
end behind it; a type takes a call of its own, so there it takes one level of depth more than it has
lexemes. `derives_of_read` is soundness. The two meet in `ofLexemes?_eq_some_iff`.
-/

set_option autoImplicit false

namespace DebugLink

/-- The kind of lexeme that a marker is. -/
def Marker.symbol : Marker → TypeSymbol
  | pointer => .star
  | reference => .ampersand

/-- The marker that a lexeme of some kind is. -/
def TypeSymbol.marker? : TypeSymbol → Option Marker
  | .star => some .pointer
  | .ampersand => some .reference
  | _ => none

theorem TypeSymbol.marker?_eq_some_iff {symbol : TypeSymbol} {marker : Marker} :
    symbol.marker? = some marker ↔ symbol = marker.symbol := by
  cases symbol <;> cases marker <;> simp [marker?, Marker.symbol]

namespace TypeName

/-! ### The productions -/

/-- Whether a lexeme is a word that may stand in front of a name. -/
def isPrefix (lexeme : Lexeme TypeSymbol) : Bool :=
  isDropped lexeme || isSize lexeme

/-- What is kept of the words in front of a name. -/
def sizes (words : List (Lexeme TypeSymbol)) : List SizeWord :=
  words.filterMap fun lexeme ↦ sizeWord? lexeme.text

/-- `"::"?` -/
def LeadingScope (lexemes : List (Lexeme TypeSymbol)) : Prop :=
  lexemes = [] ∨ ∃ mark, mark.kind = .scope ∧ lexemes = [mark]

/-- `marker dropped*` -/
def SpellsMarker (lexemes : List (Lexeme TypeSymbol)) (marker : Marker) : Prop :=
  ∃ mark dropped, mark.kind = marker.symbol ∧ (∀ lexeme ∈ dropped, isDropped lexeme = true) ∧
    lexemes = mark :: dropped

/-- The nonterminal symbols that types are derived from. -/
inductive Nonterminal
  | type
  | types
  | component
  | path

/-- What a derivation from a nonterminal symbol is a derivation of. -/
abbrev Nonterminal.Meaning : Nonterminal → Type
  | type => TypeName
  | types => List TypeName
  | component => Scope TypeName
  | path => List (Scope TypeName)

/-- The productions of types. -/
inductive Derives : (n : Nonterminal) → List (Lexeme TypeSymbol) → n.Meaning → Prop
  /-- `type := prefix-word* (marker dropped*)*` -/
  | unnamed {words marks : List (Lexeme TypeSymbol)} {markers : List Marker} :
    (∀ lexeme ∈ words, isPrefix lexeme = true) → Parser.Repeated SpellsMarker marks markers →
      Derives .type (words ++ marks) ⟨sizes words, [], markers⟩
  /-- `type := prefix-word* "::"? path dropped* (marker dropped*)*` -/
  | named {words leading name dropped marks : List (Lexeme TypeSymbol)}
    {path : List (Scope TypeName)} {markers : List Marker} :
    (∀ lexeme ∈ words, isPrefix lexeme = true) → LeadingScope leading → Derives .path name path →
      (∀ lexeme ∈ dropped, isDropped lexeme = true) →
        Parser.Repeated SpellsMarker marks markers →
          Derives .type (words ++ (leading ++ (name ++ (dropped ++ marks))))
            ⟨sizes words, path, markers⟩
  /-- `types := type` -/
  | lastType {item : List (Lexeme TypeSymbol)} {ty : TypeName} :
    Derives .type item ty → Derives .types item [ty]
  /-- `types := type "," types` -/
  | moreTypes {comma : Lexeme TypeSymbol} {item others : List (Lexeme TypeSymbol)} {ty : TypeName}
    {types : List TypeName} :
    Derives .type item ty → comma.kind = .comma → Derives .types others types →
      Derives .types (item ++ [comma] ++ others) (ty :: types)
  /-- `component := name` -/
  | plain {name : Lexeme TypeSymbol} :
    isName name = true → Derives .component [name] ⟨name.text, none⟩
  /-- `component := name "<" types ">"` -/
  | template {name opening closing : Lexeme TypeSymbol} {inner : List (Lexeme TypeSymbol)}
    {arguments : List TypeName} :
    isName name = true → opening.kind = .less → Derives .types inner arguments →
      closing.kind = .greater →
        Derives .component (name :: opening :: (inner ++ [closing])) ⟨name.text, some arguments⟩
  /-- `path := component` -/
  | lastComponent {item : List (Lexeme TypeSymbol)} {scope : Scope TypeName} :
    Derives .component item scope → Derives .path item [scope]
  /-- `path := component "::" path` -/
  | moreComponents {mark : Lexeme TypeSymbol} {item others : List (Lexeme TypeSymbol)}
    {scope : Scope TypeName} {path : List (Scope TypeName)} :
    Derives .component item scope → mark.kind = .scope → Derives .path others path →
      Derives .path (item ++ [mark] ++ others) (scope :: path)

/-! ### Words and markers -/

/-- A word that is dropped says nothing about the size. -/
theorem sizeWord?_of_isDropped {lexeme : Lexeme TypeSymbol} (h : isDropped lexeme = true) :
    sizeWord? lexeme.text = none := by
  have hnone : ∀ word ∈ droppedWords, sizeWord? word = none := by decide
  rw [isDropped, Bool.and_eq_true] at h
  exact hnone _ (List.contains_iff_mem.mp h.2)

theorem kind_of_isDropped {lexeme : Lexeme TypeSymbol} (h : isDropped lexeme = true) :
    lexeme.kind = .word := by
  rw [isDropped, Bool.and_eq_true, decide_eq_true_eq] at h
  exact h.1

theorem kind_of_isPrefix {lexeme : Lexeme TypeSymbol} (h : isPrefix lexeme = true) :
    lexeme.kind = .word := by
  rw [isPrefix, Bool.or_eq_true, isSize, Bool.and_eq_true, decide_eq_true_eq] at h
  exact h.elim kind_of_isDropped And.left

theorem kind_of_isName {lexeme : Lexeme TypeSymbol} (h : isName lexeme = true) :
    lexeme.kind = .word := by
  rw [isName, Bool.and_eq_true, Bool.and_eq_true, decide_eq_true_eq] at h
  exact h.1.1

theorem isPrefix_of_isName {lexeme : Lexeme TypeSymbol} (h : isName lexeme = true) :
    isPrefix lexeme = false := by
  rw [isName, Bool.and_eq_true, Bool.and_eq_true, Bool.not_eq_true', Bool.not_eq_true'] at h
  rw [isPrefix, h.1.2, h.2]
  rfl

section Reading

variable {calls : (rule : Unit) → Reader (Lexeme TypeSymbol) (TypeRule rule)}
  {lexemes rest : List (Lexeme TypeSymbol)}

theorem read_prefixWords (lexemes : List (Lexeme TypeSymbol)) :
    prefixWords.read calls lexemes =
      .matched (lexemes.takeWhile isPrefix) (sizes (lexemes.takeWhile isPrefix))
        (lexemes.dropWhile isPrefix) := by
  have hcons : ∀ lexeme rest,
      (((Parser.satisfy isDropped).map fun _ ↦ (none : Option SizeWord)).either
        ((Parser.satisfy isSize).map fun lexeme ↦ sizeWord? lexeme.text) :
          TypeParser (Option SizeWord)).read calls (lexeme :: rest) =
        if isPrefix lexeme then .matched [lexeme] (sizeWord? lexeme.text) rest else .mismatch := by
    intro lexeme rest
    have hdropped : ((Parser.satisfy isDropped).map fun _ ↦ (none : Option SizeWord) :
        TypeParser (Option SizeWord)).read calls (lexeme :: rest) =
          if isDropped lexeme then .matched [lexeme] none rest else .mismatch := by
      rw [Parser.read_map, Parser.read_satisfy_cons]
      split_ifs <;> rfl
    cases h : isDropped lexeme with
    | true =>
      rw [h, if_pos rfl] at hdropped
      rw [Parser.read_either_of_matched hdropped, isPrefix, h, sizeWord?_of_isDropped h]
      rfl
    | false =>
      rw [h, if_neg Bool.false_ne_true] at hdropped
      rw [Parser.read_either_of_mismatch hdropped, Parser.read_map, Parser.read_satisfy_cons,
        isPrefix, h, Bool.false_or]
      split_ifs <;> rfl
  rw [prefixWords, Parser.read_map, Parser.read_zeroOrMore, Parser.iterate_single rfl hcons,
    Reading.bind_matched, List.filterMap_map]
  rfl

theorem read_qualifiers (lexemes : List (Lexeme TypeSymbol)) :
    qualifiers.read calls lexemes =
      .matched (lexemes.takeWhile isDropped) () (lexemes.dropWhile isDropped) := by
  rw [qualifiers, Parser.ignore, Parser.read_map, Parser.read_zeroOrMore_satisfy]
  rfl

theorem read_marker_cons (mark : Lexeme TypeSymbol) (rest : List (Lexeme TypeSymbol)) :
    marker.read calls (mark :: rest) =
      match mark.kind.marker? with
      | some kind => .matched (mark :: rest.takeWhile isDropped) kind (rest.dropWhile isDropped)
      | none => .mismatch := by
  rw [marker, Parser.read_thenSkip]
  simp only [Parser.read, Parser.read_map, Parser.read_kind_cons, read_qualifiers]
  cases mark.kind <;> rfl

theorem spellsMarker_of_read {first : List (Lexeme TypeSymbol)} {kind : Marker}
    (h : marker.read calls lexemes = .matched first kind rest) : SpellsMarker first kind := by
  cases lexemes with
  | nil => cases h
  | cons mark others =>
    rw [read_marker_cons] at h
    cases hmark : mark.kind.marker? with
    | none =>
      rw [hmark] at h
      cases h
    | some found =>
      rw [hmark] at h
      cases h
      exact ⟨mark, _, TypeSymbol.marker?_eq_some_iff.mp hmark,
        fun _ hmem ↦ List.mem_takeWhile_imp hmem, rfl⟩

/-- No marker goes on with the lexemes, and none begins with them. -/
def EndsMarkers (lexemes : List (Lexeme TypeSymbol)) : Prop :=
  ∀ lexeme, lexemes.head? = some lexeme → lexeme.kind = .comma ∨ lexeme.kind = .greater

/-- What comes first among markers and behind them ends a name. -/
theorem kind_of_head (h : EndsMarkers rest) {marks : List (Lexeme TypeSymbol)}
    {markers : List Marker} (hmarks : Parser.Repeated SpellsMarker marks markers) :
    ∀ lexeme, (marks ++ rest).head? = some lexeme →
      lexeme.kind ≠ .word ∧ lexeme.kind ≠ .scope ∧ lexeme.kind ≠ .less := by
  intro lexeme hhead
  cases hmarks with
  | nil => rcases h lexeme hhead with hkind | hkind <;> simp [hkind]
  | @cons item others kind markers hitem hothers =>
    obtain ⟨mark, dropped, hmark, -, rfl⟩ := hitem
    obtain rfl : mark = lexeme := by simpa using hhead
    rw [hmark]
    cases kind <;> simp [Marker.symbol]

theorem not_isDropped_of_head (h : EndsMarkers rest) {marks : List (Lexeme TypeSymbol)}
    {markers : List Marker} (hmarks : Parser.Repeated SpellsMarker marks markers) :
    ∀ lexeme, (marks ++ rest).head? = some lexeme → isDropped lexeme = false :=
  fun lexeme hhead ↦ Bool.eq_false_iff.mpr fun hdropped ↦
    (kind_of_head h hmarks lexeme hhead).1 (kind_of_isDropped hdropped)

/-- Markers are read up to where they end. -/
theorem read_markers {marks : List (Lexeme TypeSymbol)} {markers : List Marker}
    (hmarks : Parser.Repeated SpellsMarker marks markers) (hrest : EndsMarkers rest) :
    marker.zeroOrMore.read calls (marks ++ rest) = .matched marks markers rest := by
  rw [Parser.read_zeroOrMore]
  induction hmarks with
  | nil =>
    refine Reader.iterate_of_mismatch ?_
    cases rest with
    | nil => rfl
    | cons lexeme others =>
      rw [List.nil_append, read_marker_cons]
      rcases hrest lexeme rfl with hkind | hkind <;> rw [hkind] <;> rfl
  | @cons item others kind markers hitem hothers ih =>
    obtain ⟨mark, dropped, hmark, hdropped, rfl⟩ := hitem
    obtain ⟨htake, hdrop⟩ := Text.run_append hdropped (not_isDropped_of_head hrest hothers)
    have hread : marker.read calls (mark :: dropped ++ others ++ rest) =
        .matched (mark :: dropped) kind (others ++ rest) := by
      rw [List.append_assoc, List.cons_append, read_marker_cons,
        TypeSymbol.marker?_eq_some_iff.mpr hmark, htake, hdrop]
    have hlimit : (none : Option Nat) ≠ some 0 := by simp
    have hshorter : (others ++ rest).length < (mark :: dropped ++ others ++ rest).length := by
      simp only [List.length_append, List.length_cons]
      omega
    rw [Reader.iterate_of_matched hlimit hread hshorter, Option.map_none, ih, Reading.bind_matched]

/-! ### Names -/

/-- A name is one lexeme. -/
theorem read_name_cons (lexeme : Lexeme TypeSymbol) (rest : List (Lexeme TypeSymbol)) :
    name.read calls (lexeme :: rest) =
      if isName lexeme then .matched [lexeme] lexeme.text rest else .mismatch := by
  rw [name, Parser.read_map, Parser.read_satisfy_cons]
  split_ifs <;> rfl

/-- A list of types, as it stands between angle brackets. -/
def types : TypeParser (List TypeName) :=
  (Parser.call () : TypeParser TypeName).separatedBy (Parser.kind .comma)

/-- A template is a name, an opening bracket, its arguments and a closing bracket. -/
theorem read_templateComponent_cons {first : Lexeme TypeSymbol} (hname : isName first = true)
    (rest : List (Lexeme TypeSymbol)) :
    templateComponent.read calls (first :: rest) =
      ((Parser.kind .less : TypeParser String).read calls rest).bind fun opening _ middle ↦
        (types.read calls middle).bind fun inner arguments last ↦
          ((Parser.kind .greater : TypeParser String).read calls last).bind fun closing _ left ↦
            .matched (first :: (opening ++ (inner ++ closing)))
              ⟨first.text, some arguments⟩ left := by
  rw [templateComponent, Parser.read_map, Parser.read_thenSkip, Parser.read_both,
    Parser.read_thenSkip, read_name_cons, if_pos hname, Reading.bind_matched]
  cases (Parser.kind .less : TypeParser String).read calls rest with
  | matched opening text middle =>
    simp only [Reading.bind_matched]
    show (((types.read calls middle).bind _).bind _).bind _ = _
    cases types.read calls middle with
    | matched inner arguments last =>
      simp only [Reading.bind_matched]
      cases (Parser.kind .greater : TypeParser String).read calls last with
      | matched closing text left => simp [Reading.bind]
      | mismatch => rfl
      | tooDeep => rfl
    | mismatch => rfl
    | tooDeep => rfl
  | mismatch => rfl
  | tooDeep => rfl

/-- A component begins with a name. -/
theorem read_component_of_mismatch (h : ∀ lexeme, lexemes.head? = some lexeme →
    isName lexeme = false) : component.read calls lexemes = .mismatch := by
  cases lexemes with
  | nil => rfl
  | cons lexeme rest =>
    have hname : name.read calls (lexeme :: rest) = .mismatch := by
      rw [read_name_cons, h lexeme rfl]
      rfl
    rw [component, Parser.read_either_of_mismatch, Parser.read_map, hname]
    · rfl
    · rw [templateComponent, Parser.read_map, Parser.read_thenSkip, Parser.read_both,
        Parser.read_thenSkip, hname]
      rfl

/-- A name is all of a component if no angle bracket follows. -/
theorem read_component_plain {first : Lexeme TypeSymbol} (hname : isName first = true)
    (hrest : ∀ lexeme, rest.head? = some lexeme → lexeme.kind ≠ .less) :
    component.read calls (first :: rest) = .matched [first] ⟨first.text, none⟩ rest := by
  have hless : (Parser.kind .less : TypeParser String).read calls rest = .mismatch :=
    Parser.read_kind_of_ne hrest
  rw [component, Parser.read_either_of_mismatch, Parser.read_map, read_name_cons, if_pos hname]
  · rfl
  · rw [read_templateComponent_cons hname, hless]
    rfl

/-- A component with arguments is read from its name to the closing bracket if what stands between
the brackets is. -/
theorem read_component_template {first opening closing : Lexeme TypeSymbol}
    {inner : List (Lexeme TypeSymbol)} {arguments : List TypeName} (hname : isName first = true)
    (hopening : opening.kind = .less) (hclosing : closing.kind = .greater)
    (hinner : types.read calls (inner ++ closing :: rest) =
      .matched inner arguments (closing :: rest)) :
    component.read calls (first :: opening :: (inner ++ [closing]) ++ rest) =
      .matched (first :: opening :: (inner ++ [closing])) ⟨first.text, some arguments⟩ rest := by
  refine Parser.read_either_of_matched ?_
  rw [List.cons_append, List.cons_append, List.append_assoc, List.singleton_append,
    read_templateComponent_cons hname, Parser.read_kind_cons, if_pos hopening,
    Reading.bind_matched, hinner, Reading.bind_matched, Parser.read_kind_cons, if_pos hclosing]
  rfl

/-- Without a scope operator or a name there is no qualified name. -/
theorem read_qualifiedName_of_mismatch (h : ∀ lexeme, lexemes.head? = some lexeme →
    lexeme.kind ≠ .scope ∧ lexeme.kind ≠ .word) :
    qualifiedName.read calls lexemes = .mismatch := by
  have hscope : (Parser.kind .scope : TypeParser String).read calls lexemes = .mismatch :=
    Parser.read_kind_of_ne fun lexeme hhead ↦ (h lexeme hhead).1
  have hcomponent : component.read calls lexemes = .mismatch := by
    refine read_component_of_mismatch fun lexeme hhead ↦ ?_
    rw [Bool.eq_false_iff]
    exact fun hname ↦ (h lexeme hhead).2 (kind_of_isName hname)
  rw [qualifiedName, Parser.read_skipThen, Parser.read_optional_of_mismatch hscope,
    Reading.bind_matched, Parser.read_separatedBy_of_mismatch hcomponent]
  rfl

/-- Components with scope operators between them. -/
def components : TypeParser (List (Scope TypeName)) :=
  component.separatedBy (Parser.kind .scope)

/-- A scope operator in front of a qualified name is read and dropped. -/
theorem read_qualifiedName {leading name : List (Lexeme TypeSymbol)}
    {path : List (Scope TypeName)} (hleading : LeadingScope leading)
    (hname : ∀ lexeme, (name ++ rest).head? = some lexeme → lexeme.kind ≠ .scope)
    (hpath : components.read calls (name ++ rest) = .matched name path rest) :
    qualifiedName.read calls (leading ++ (name ++ rest)) =
      .matched (leading ++ name) path rest := by
  have hscope : ∃ found, (Parser.kind .scope : TypeParser String).optional.read calls
      (leading ++ (name ++ rest)) = .matched leading found (name ++ rest) := by
    rcases hleading with rfl | ⟨mark, hmark, rfl⟩
    · exact ⟨none, Parser.read_optional_of_mismatch (Parser.read_kind_of_ne hname)⟩
    · refine ⟨some mark.text, Parser.read_optional_of_matched ?_⟩
      rw [List.singleton_append, Parser.read_kind_cons, if_pos hmark]
  obtain ⟨found, hscope⟩ := hscope
  rw [qualifiedName, Parser.read_skipThen, hscope, Reading.bind_matched]
  show (components.read _ _).bind _ = _
  rw [hpath, Reading.bind_matched]

/-! ### Types -/

/-- The parts of a type are read one after the other. -/
theorem read_typeRule (lexemes : List (Lexeme TypeSymbol)) :
    typeRule.read calls lexemes =
      (qualifiedName.optional.read calls (lexemes.dropWhile isPrefix)).bind fun name path middle ↦
        (marker.zeroOrMore.read calls (middle.dropWhile isDropped)).bind fun marks markers last ↦
          .matched (lexemes.takeWhile isPrefix ++ (name ++ (middle.takeWhile isDropped ++ marks)))
            ⟨sizes (lexemes.takeWhile isPrefix), path.getD [], markers⟩ last := by
  rw [typeRule, Parser.read_map, Parser.read_both, Parser.read_thenSkip, Parser.read_both,
    read_prefixWords, Reading.bind_matched]
  cases qualifiedName.optional.read calls (lexemes.dropWhile isPrefix) with
  | matched name path middle =>
    simp only [Reading.bind_matched, read_qualifiers]
    cases marker.zeroOrMore.read calls (middle.dropWhile isDropped) with
    | matched marks markers last => simp [Reading.bind]
    | mismatch => rfl
    | tooDeep => rfl
  | mismatch => rfl
  | tooDeep => rfl

end Reading

/-! ### Completeness -/

/-- The parser of a nonterminal symbol. -/
def Nonterminal.parser : (n : Nonterminal) → TypeParser n.Meaning
  | .type => Parser.call ()
  | .types => TypeName.types
  | .component => TypeName.component
  | .path => TypeName.components

/-- To read a type takes a level of depth. -/
theorem read_type (depth : Nat) (lexemes : List (Lexeme TypeSymbol)) :
    Nonterminal.type.parser.read (grammar.read (depth + 1)) lexemes =
      typeRule.read (grammar.read depth) lexemes := rfl

/-- What may follow if a derivation is to be read up to its end. -/
def Nonterminal.EndsBefore : Nonterminal → List (Lexeme TypeSymbol) → Prop
  | .type, rest => EndsMarkers rest
  | .types, rest => ∀ lexeme, rest.head? = some lexeme → lexeme.kind = .greater
  | .component, rest => ∀ lexeme, rest.head? = some lexeme → lexeme.kind ≠ .less
  | .path, rest => ∀ lexeme, rest.head? = some lexeme → lexeme.kind ≠ .less ∧ lexeme.kind ≠ .scope

/-- The depth that a derivation of some length takes. -/
def Nonterminal.depth : Nonterminal → Nat → Nat
  | .type, length | .types, length => length + 1
  | .component, length | .path, length => length

/-- A name comes first in a component and in a path. -/
theorem Derives.begins {n : Nonterminal} {lexemes : List (Lexeme TypeSymbol)}
    {meaning : n.Meaning} (h : Derives n lexemes meaning) (hn : n = .component ∨ n = .path) :
    ∃ first rest, lexemes = first :: rest ∧ isName first = true := by
  induction h with
  | unnamed | named | lastType | moreTypes => rcases hn with hn | hn <;> cases hn
  | plain hname => exact ⟨_, _, rfl, hname⟩
  | template hname _ _ _ _ => exact ⟨_, _, rfl, hname⟩
  | lastComponent _ ih => exact ih (.inl rfl)
  | moreComponents _ _ _ ih _ =>
    obtain ⟨first, rest, rfl, hname⟩ := ih (.inl rfl)
    exact ⟨first, _, rfl, hname⟩

section Completeness

variable {words leading name dropped marks rest : List (Lexeme TypeSymbol)}
  {path : List (Scope TypeName)} {markers : List Marker}

/-- A type without a name is its words and its markers. -/
theorem read_typeRule_unnamed {calls : (rule : Unit) → Reader (Lexeme TypeSymbol) (TypeRule rule)}
    (hwords : ∀ lexeme ∈ words, isPrefix lexeme = true)
    (hmarks : Parser.Repeated SpellsMarker marks markers) (hends : EndsMarkers rest) :
    typeRule.read calls (words ++ marks ++ rest) =
      .matched (words ++ marks) ⟨sizes words, [], markers⟩ rest := by
  have hkinds := kind_of_head hends hmarks
  have hprefix : ∀ lexeme, (marks ++ rest).head? = some lexeme → isPrefix lexeme = false :=
    fun lexeme hhead ↦ Bool.eq_false_iff.mpr fun h ↦ (hkinds lexeme hhead).1 (kind_of_isPrefix h)
  obtain ⟨htake, hdrop⟩ := Text.run_append hwords hprefix
  have hname : qualifiedName.read calls (marks ++ rest) = .mismatch :=
    read_qualifiedName_of_mismatch fun lexeme hhead ↦
      ⟨(hkinds lexeme hhead).2.1, (hkinds lexeme hhead).1⟩
  have hnone : ∀ lexeme ∈ ([] : List (Lexeme TypeSymbol)), isDropped lexeme = true := by simp
  obtain ⟨htake', hdrop'⟩ := Text.run_append hnone (not_isDropped_of_head hends hmarks)
  rw [List.nil_append] at htake' hdrop'
  rw [read_typeRule, List.append_assoc, htake, hdrop, Parser.read_optional_of_mismatch hname,
    Reading.bind_matched, htake', hdrop', read_markers hmarks hends]
  rfl

/-- A type with a name is its words, the name with what is dropped behind it, and its markers. -/
theorem read_typeRule_named {calls : (rule : Unit) → Reader (Lexeme TypeSymbol) (TypeRule rule)}
    (hwords : ∀ lexeme ∈ words, isPrefix lexeme = true) (hleading : LeadingScope leading)
    (hname : ∃ first others, name = first :: others ∧ isName first = true)
    (hpath : components.read calls (name ++ (dropped ++ (marks ++ rest))) =
      .matched name path (dropped ++ (marks ++ rest)))
    (hdropped : ∀ lexeme ∈ dropped, isDropped lexeme = true)
    (hmarks : Parser.Repeated SpellsMarker marks markers) (hends : EndsMarkers rest) :
    typeRule.read calls (words ++ (leading ++ (name ++ (dropped ++ marks))) ++ rest) =
      .matched (words ++ (leading ++ (name ++ (dropped ++ marks)))) ⟨sizes words, path, markers⟩
        rest := by
  obtain ⟨first, others, rfl, hfirst⟩ := hname
  have hprefix : ∀ lexeme, (leading ++ (first :: others ++ (dropped ++ (marks ++ rest)))).head? =
      some lexeme → isPrefix lexeme = false := by
    intro lexeme hhead
    rcases hleading with rfl | ⟨mark, hmark, rfl⟩
    · obtain rfl : first = lexeme := by simpa using hhead
      exact isPrefix_of_isName hfirst
    · obtain rfl : mark = lexeme := by simpa using hhead
      rw [Bool.eq_false_iff]
      intro h
      rw [kind_of_isPrefix h] at hmark
      cases hmark
  obtain ⟨htake, hdrop⟩ := Text.run_append hwords hprefix
  have hscope : ∀ lexeme, (first :: others ++ (dropped ++ (marks ++ rest))).head? = some lexeme →
      lexeme.kind ≠ .scope := by
    intro lexeme hhead
    obtain rfl : first = lexeme := by simpa using hhead
    simp [kind_of_isName hfirst]
  have hread := read_qualifiedName hleading hscope hpath
  obtain ⟨htake', hdrop'⟩ := Text.run_append hdropped (not_isDropped_of_head hends hmarks)
  rw [read_typeRule]
  simp only [List.append_assoc]
  rw [htake, hdrop, Parser.read_optional_of_matched hread, Reading.bind_matched, htake', hdrop',
    read_markers hmarks hends]
  simp only [Reading.bind_matched, List.append_assoc, Option.getD_some]

/-- Whether lexemes are read as a whole, whatever follows them, if there is depth enough. -/
def Nonterminal.Reads (n : Nonterminal) (lexemes : List (Lexeme TypeSymbol))
    (meaning : n.Meaning) : Prop :=
  ∀ (depth : Nat) (rest : List (Lexeme TypeSymbol)), n.depth lexemes.length ≤ depth →
    n.EndsBefore rest →
      n.parser.read (grammar.read depth) (lexemes ++ rest) = .matched lexemes meaning rest

/-! One lemma for each production. A type is read by a call, which takes a level of depth, and may
have no lexeme at all. -/

theorem reads_unnamed (hwords : ∀ lexeme ∈ words, isPrefix lexeme = true)
    (hmarks : Parser.Repeated SpellsMarker marks markers) :
    Nonterminal.type.Reads (words ++ marks) ⟨sizes words, [], markers⟩ := by
  rintro (_ | depth) rest hdepth hends
  · simp [Nonterminal.depth] at hdepth
  · rw [read_type]
    exact read_typeRule_unnamed hwords hmarks hends

/-- The name ends before the words that are dropped and before the markers, where neither a scope
nor an opening bracket comes. -/
theorem reads_named (hwords : ∀ lexeme ∈ words, isPrefix lexeme = true)
    (hleading : LeadingScope leading) (hpath : Derives .path name path)
    (hreads : Nonterminal.path.Reads name path)
    (hdropped : ∀ lexeme ∈ dropped, isDropped lexeme = true)
    (hmarks : Parser.Repeated SpellsMarker marks markers) :
    Nonterminal.type.Reads (words ++ (leading ++ (name ++ (dropped ++ marks))))
      ⟨sizes words, path, markers⟩ := by
  rintro (_ | depth) rest hdepth hends
  · simp [Nonterminal.depth] at hdepth
  · simp only [Nonterminal.depth, List.length_append] at hdepth
    have hafter : Nonterminal.path.EndsBefore (dropped ++ (marks ++ rest)) := by
      intro lexeme hhead
      cases dropped with
      | nil =>
        obtain ⟨-, hscope, hless⟩ := kind_of_head hends hmarks lexeme hhead
        exact ⟨hless, hscope⟩
      | cons word others =>
        obtain rfl : word = lexeme := by simpa using hhead
        simp [kind_of_isDropped (hdropped word List.mem_cons_self)]
    have hread := hreads depth _ (by simp only [Nonterminal.depth]; omega) hafter
    rw [read_type]
    exact read_typeRule_named hwords hleading (hpath.begins (.inr rfl)) hread hdropped hmarks hends

section Sequences

variable {mark : Lexeme TypeSymbol} {item others : List (Lexeme TypeSymbol)} {ty : TypeName}
  {types : List TypeName} {scope : Scope TypeName}

theorem reads_lastType (hitem : Nonterminal.type.Reads item ty) :
    Nonterminal.types.Reads item [ty] := by
  intro depth rest hdepth hends
  refine Parser.read_separatedBy_last (hitem depth rest hdepth fun lexeme hhead ↦ ?_)
    (Parser.read_kind_of_ne fun lexeme hhead ↦ ?_)
  · exact .inr (hends lexeme hhead)
  · simp [hends lexeme hhead]

/-- A comma ends the first of several types. -/
theorem reads_moreTypes (hitem : Nonterminal.type.Reads item ty) (hmark : mark.kind = .comma)
    (hothers : Nonterminal.types.Reads others types) :
    Nonterminal.types.Reads (item ++ [mark] ++ others) (ty :: types) := by
  intro depth rest hdepth hends
  simp only [Nonterminal.depth, List.length_append, List.length_cons, List.length_nil] at hdepth
  refine Parser.read_separatedBy_kind (grammar.read_splits depth) hmark
    (hitem depth _ ?_ ?_) (hothers depth rest ?_ hends)
  · simp only [Nonterminal.depth]
    omega
  · intro lexeme hhead
    obtain rfl : mark = lexeme := by simpa using hhead
    exact .inl hmark
  · simp only [Nonterminal.depth]
    omega

/-- The closing bracket ends the last argument. -/
theorem reads_template {name opening closing : Lexeme TypeSymbol} (hname : isName name = true)
    (hopening : opening.kind = .less) (hinner : Nonterminal.types.Reads item types)
    (hclosing : closing.kind = .greater) :
    Nonterminal.component.Reads (name :: opening :: (item ++ [closing]))
      ⟨name.text, some types⟩ := by
  intro depth rest hdepth hends
  simp only [Nonterminal.depth, List.length_cons, List.length_append, List.length_nil] at hdepth
  refine read_component_template hname hopening hclosing (hinner depth _ ?_ ?_)
  · simp only [Nonterminal.depth]
    omega
  · simp [Nonterminal.EndsBefore, hclosing]

theorem reads_lastComponent (hitem : Nonterminal.component.Reads item scope) :
    Nonterminal.path.Reads item [scope] := by
  intro depth rest hdepth hends
  refine Parser.read_separatedBy_last (hitem depth rest hdepth fun lexeme hhead ↦ ?_)
    (Parser.read_kind_of_ne fun lexeme hhead ↦ ?_)
  · exact (hends lexeme hhead).1
  · exact (hends lexeme hhead).2

/-- The mark of a scope ends the first of several components. -/
theorem reads_moreComponents (hitem : Nonterminal.component.Reads item scope)
    (hmark : mark.kind = .scope) (hothers : Nonterminal.path.Reads others path) :
    Nonterminal.path.Reads (item ++ [mark] ++ others) (scope :: path) := by
  intro depth rest hdepth hends
  simp only [Nonterminal.depth, List.length_append, List.length_cons, List.length_nil] at hdepth
  refine Parser.read_separatedBy_kind (grammar.read_splits depth) hmark
    (hitem depth _ ?_ ?_) (hothers depth rest ?_ hends)
  · simp only [Nonterminal.depth]
    omega
  · intro lexeme hhead
    obtain rfl : mark = lexeme := by simpa using hhead
    simp [hmark]
  · simp only [Nonterminal.depth]
    omega

end Sequences

/-- What is derived is read as a whole, whatever follows it, if there is depth enough. -/
theorem read_of_derives {n : Nonterminal} {lexemes : List (Lexeme TypeSymbol)}
    {meaning : n.Meaning} (h : Derives n lexemes meaning) : n.Reads lexemes meaning := by
  induction h with
  | unnamed hwords hmarks => exact reads_unnamed hwords hmarks
  | named hwords hleading hpath hdropped hmarks ih =>
    exact reads_named hwords hleading hpath ih hdropped hmarks
  | lastType _ ih => exact reads_lastType ih
  | moreTypes _ hcomma _ ihItem ihOthers => exact reads_moreTypes ihItem hcomma ihOthers
  | plain hname => exact fun _ _ _ hends ↦ read_component_plain hname hends
  | template hname hopening _ hclosing ih => exact reads_template hname hopening ih hclosing
  | lastComponent _ ih => exact reads_lastComponent ih
  | moreComponents _ hmark _ ihItem ihOthers => exact reads_moreComponents ihItem hmark ihOthers

end Completeness

/-- Nothing at all derives only the type without any part. -/
theorem eq_of_derives_nil {ty : TypeName} (h : Derives .type [] ty) : ty = ⟨[], [], []⟩ := by
  generalize hnil : ([] : List (Lexeme TypeSymbol)) = lexemes at h
  cases h with
  | unnamed _ hmarks =>
    obtain ⟨rfl, rfl⟩ := List.append_eq_nil_iff.mp hnil.symm
    generalize hnone : ([] : List (Lexeme TypeSymbol)) = marks at hmarks
    cases hmarks with
    | nil => rfl
    | cons hitem _ =>
      obtain ⟨mark, dropped, -, -, rfl⟩ := hitem
      cases hnone
  | named _ _ hpath _ _ =>
    obtain ⟨first, rest, rfl, -⟩ := hpath.begins (.inr rfl)
    simp at hnil

/-! ### Soundness -/

/-- The separator of a list, as a lexeme of some kind. -/
def IsMark (kind : TypeSymbol) (lexemes : List (Lexeme TypeSymbol)) : Prop :=
  ∃ mark, mark.kind = kind ∧ lexemes = [mark]

/-- Types with commas between them are derived. -/
theorem derives_types_of_separated {lexemes : List (Lexeme TypeSymbol)} {types : List TypeName}
    (h : Parser.Separated (Derives .type) (IsMark .comma) lexemes types) :
    Derives .types lexemes types := by
  induction h with
  | last hitem => exact .lastType hitem
  | more hitem hseparator _ ih =>
    obtain ⟨comma, hcomma, rfl⟩ := hseparator
    exact .moreTypes hitem hcomma ih

/-- Components with the marks of scopes between them are derived. -/
theorem derives_path_of_separated {lexemes : List (Lexeme TypeSymbol)}
    {path : List (Scope TypeName)}
    (h : Parser.Separated (Derives .component) (IsMark .scope) lexemes path) :
    Derives .path lexemes path := by
  induction h with
  | last hitem => exact .lastComponent hitem
  | more hitem hseparator _ ih =>
    obtain ⟨mark, hmark, rfl⟩ := hseparator
    exact .moreComponents hitem hmark ih

section Soundness

variable {calls : (rule : Unit) → Reader (Lexeme TypeSymbol) (TypeRule rule)}
  {lexemes first rest : List (Lexeme TypeSymbol)}

/-- A lexeme that is read by its kind is a mark of that kind. -/
theorem isMark_of_read {kind : TypeSymbol} {text : String}
    (h : (Parser.kind kind : TypeParser String).read calls lexemes = .matched first text rest) :
    IsMark kind first := by
  obtain ⟨mark, hmark, rfl, -, -⟩ := Parser.read_kind_eq_matched h
  exact ⟨mark, hmark, rfl⟩

variable (hcalls : ∀ {lexemes first rest : List (Lexeme TypeSymbol)} {ty : TypeName},
  (Parser.call () : TypeParser TypeName).read calls lexemes = .matched first ty rest →
    Derives .type first ty)

include hcalls

/-- What is read as a component is a name, with arguments that are derived if it has any. -/
theorem derives_of_read_component {scope : Scope TypeName}
    (h : component.read calls lexemes = .matched first scope rest) :
    Derives .component first scope := by
  cases lexemes with
  | nil => cases h
  | cons lexeme others =>
    cases hname : isName lexeme with
    | false =>
      have hmismatch : component.read calls (lexeme :: others) = .mismatch := by
        refine read_component_of_mismatch fun found hhead ↦ ?_
        obtain rfl : lexeme = found := by simpa using hhead
        exact hname
      rw [hmismatch] at h
      cases h
    | true =>
      rcases Parser.read_either_eq_matched h with htemplate | hplain
      · rw [read_templateComponent_cons hname, Reading.bind_eq_matched_iff] at htemplate
        obtain ⟨opening, mark, middle, hopening, h⟩ := htemplate
        obtain ⟨inner, arguments, last, hinner, h⟩ := Reading.bind_eq_matched_iff.mp h
        obtain ⟨closing, mark', left, hclosing, heq⟩ := Reading.bind_eq_matched_iff.mp h
        obtain ⟨opening, hless, rfl, -, -⟩ := Parser.read_kind_eq_matched hopening
        obtain ⟨closing, hgreater, rfl, -, -⟩ := Parser.read_kind_eq_matched hclosing
        cases heq
        exact .template hname hless (derives_types_of_separated
          (Parser.separated_of_read_separatedBy hcalls isMark_of_read hinner)) hgreater
      · rw [Parser.read_map, read_name_cons, hname] at hplain
        cases hplain
        exact .plain hname

/-- What is read as a path is derived. -/
theorem derives_of_read_components {path : List (Scope TypeName)}
    (h : components.read calls lexemes = .matched first path rest) : Derives .path first path :=
  derives_path_of_separated <|
    Parser.separated_of_read_separatedBy (derives_of_read_component hcalls) isMark_of_read h

/-- What is read as a qualified name is a path, perhaps with a leading scope. -/
theorem derives_of_read_qualifiedName {path : List (Scope TypeName)}
    (h : qualifiedName.read calls lexemes = .matched first path rest) :
    ∃ leading name, LeadingScope leading ∧ Derives .path name path ∧ first = leading ++ name := by
  rw [qualifiedName, Parser.read_skipThen, Reading.bind_eq_matched_iff] at h
  obtain ⟨leading, found, middle, hleading, h⟩ := h
  obtain ⟨name, found', last, hname, heq⟩ := Reading.bind_eq_matched_iff.mp h
  cases heq
  refine ⟨leading, name, ?_, derives_of_read_components hcalls hname, rfl⟩
  rcases Parser.read_optional_eq_matched hleading with ⟨text, -, hscope⟩ | ⟨-, rfl, -⟩
  · exact .inr (isMark_of_read hscope)
  · exact .inl rfl

/-- What the rule for types matches is derived if what its calls match is. -/
theorem derives_of_read_typeRule {ty : TypeName}
    (h : typeRule.read calls lexemes = .matched first ty rest) : Derives .type first ty := by
  rw [read_typeRule, Reading.bind_eq_matched_iff] at h
  obtain ⟨name, found, middle, hname, h⟩ := h
  obtain ⟨marks, markers, last, hmarks, heq⟩ := Reading.bind_eq_matched_iff.mp h
  rw [Parser.read_zeroOrMore] at hmarks
  have hmarkers := Parser.repeated_of_iterate spellsMarker_of_read none _ hmarks
  have hwords : ∀ lexeme ∈ lexemes.takeWhile isPrefix, isPrefix lexeme = true :=
    fun _ hmem ↦ List.mem_takeWhile_imp hmem
  have hdropped : ∀ lexeme ∈ middle.takeWhile isDropped, isDropped lexeme = true :=
    fun _ hmem ↦ List.mem_takeWhile_imp hmem
  rcases Parser.read_optional_eq_matched hname with ⟨path, rfl, hpath⟩ | ⟨rfl, rfl, rfl⟩
  · obtain ⟨leading, name, hleading, hderives, rfl⟩ := derives_of_read_qualifiedName hcalls hpath
    cases heq
    rw [List.append_assoc leading]
    exact .named hwords hleading hderives hdropped hmarkers
  · -- The words in front go on to the first word that is not dropped, so none is left to drop.
    have hnone : (lexemes.dropWhile isPrefix).takeWhile isDropped = [] := by
      have hhead := List.head?_dropWhile_not isPrefix lexemes
      cases hleft : lexemes.dropWhile isPrefix with
      | nil => rfl
      | cons lexeme others =>
        rw [hleft] at hhead
        have hfalse : isPrefix lexeme = false := hhead
        rw [isPrefix, Bool.or_eq_false_iff] at hfalse
        rw [List.takeWhile_cons_of_neg (Bool.eq_false_iff.mp hfalse.1)]
    cases heq
    rw [hnone]
    exact .unnamed hwords hmarkers

end Soundness

/-- Whatever the rule for types matches, at any depth, is derived. -/
theorem derives_of_read (depth : Nat) {lexemes first rest : List (Lexeme TypeSymbol)}
    {ty : TypeName}
    (h : (Parser.call () : TypeParser TypeName).read (grammar.read depth) lexemes =
      .matched first ty rest) : Derives .type first ty := by
  induction depth generalizing lexemes first rest ty with
  | zero => cases h
  | succ depth ih => exact derives_of_read_typeRule ih h

/-- The parser finds a type in lexemes exactly if there are any and they derive it. -/
theorem ofLexemes?_eq_some_iff {lexemes : List (Lexeme TypeSymbol)} {ty : TypeName} :
    ofLexemes? lexemes = some ty ↔ lexemes ≠ [] ∧ Derives .type lexemes ty := by
  rw [ofLexemes?]
  split_ifs with hempty
  · simp [List.isEmpty_iff.mp hempty]
  · rw [Grammar.value?_parseAll_eq_some_iff]
    have hne : lexemes ≠ [] := fun h ↦ hempty (List.isEmpty_iff.mpr h)
    refine ⟨fun h ↦ ⟨hne, derives_of_read _ h⟩, fun ⟨_, hderives⟩ ↦ ?_⟩
    have hread := read_of_derives hderives (lexemes.length + 1) [] le_rfl (by
      intro lexeme hhead
      cases hhead)
    rwa [List.append_nil] at hread

end TypeName

end DebugLink
