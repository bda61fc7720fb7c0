import DebugLink.Proofs.TypeName.RoundTrip

/-!
Types whose words are all there. A type without a word is spelled `int`, so what is read from a
spelling is the type with that word put in wherever one is missing (`parse?_of_text`). Completing a
type leaves its spelling as it is (`text_completed`), which makes spellings fixed points of the
normal spelling (`normalize_text`).
-/

set_option autoImplicit false

namespace DebugLink.TypeName

mutual

/-- The type with `int` in the place of every missing word. -/
def completed : TypeName → TypeName
  | ⟨[], [], declarators⟩ => ⟨[], [⟨"int", none⟩], declarators⟩
  | ⟨specifiers, path, declarators⟩ => ⟨specifiers, completedPath path, declarators⟩

/-- The components of a path with their template arguments completed. -/
def completedPath : List (Scope TypeName) → List (Scope TypeName)
  | [] => []
  | scope :: rest => completedScope scope :: completedPath rest

/-- A component with its template arguments completed. -/
def completedScope : Scope TypeName → Scope TypeName
  | ⟨name, none⟩ => ⟨name, none⟩
  | ⟨name, some arguments⟩ => ⟨name, some (completedArguments arguments)⟩

/-- Template arguments, each of them completed. -/
def completedArguments : List TypeName → List TypeName
  | [] => []
  | argument :: rest => argument.completed :: completedArguments rest

end

theorem completedArguments_eq_map (arguments : List TypeName) :
    completedArguments arguments = arguments.map completed := by
  induction arguments with
  | nil => rw [completedArguments, List.map_nil]
  | cons argument rest ih => rw [completedArguments, List.map_cons, ih]

theorem completedPath_eq_map (path : List (Scope TypeName)) :
    completedPath path = path.map completedScope := by
  induction path with
  | nil => rw [completedPath, List.map_nil]
  | cons scope rest ih => rw [completedPath, List.map_cons, ih]

theorem completedScope_eq (scope : Scope TypeName) :
    completedScope scope = ⟨scope.name, scope.arguments.map (List.map completed)⟩ := by
  obtain ⟨name, arguments⟩ := scope
  cases arguments with
  | none => rw [completedScope, Option.map_none]
  | some arguments => rw [completedScope, completedArguments_eq_map, Option.map_some]

theorem completed_of_wordless (declarators : List Marker) :
    completed ⟨[], [], declarators⟩ = ⟨[], [⟨"int", none⟩], declarators⟩ := by
  rw [completed]

theorem completed_of_worded {ty : TypeName} (h : ty.Worded) :
    ty.completed = ⟨ty.specifiers, ty.path.map completedScope, ty.declarators⟩ := by
  obtain ⟨specifiers, path, declarators⟩ := ty
  rw [completed, completedPath_eq_map]
  · rfl
  · rintro rfl rfl
    exact h.elim (· rfl) (· rfl)

/-- A type has a word, or is nothing but markers. -/
theorem worded_or_eq (ty : TypeName) : ty.Worded ∨ ty = ⟨[], [], ty.declarators⟩ := by
  obtain ⟨specifiers, path, declarators⟩ := ty
  by_cases hspecifiers : specifiers = []
  · by_cases hpath : path = []
    · exact .inr (by rw [hspecifiers, hpath]; rfl)
    · exact .inl (.inr hpath)
  · exact .inl (.inl hspecifiers)

theorem scopeText_completedScope {scope : Scope TypeName}
    (h : ∀ arguments, scope.arguments = some arguments →
      ∀ argument ∈ arguments, argument.completed.text = argument.text) :
    scopeText (completedScope scope) = scopeText scope := by
  obtain ⟨name, arguments⟩ := scope
  cases arguments with
  | none => rw [completedScope]
  | some arguments =>
    have htexts : (arguments.map completed).map text = arguments.map text := by
      rw [List.map_map]
      exact List.map_congr_left (h arguments rfl)
    rw [completedScope, completedArguments_eq_map, scopeText, scopeText, argumentTexts_eq_map,
      argumentTexts_eq_map, htexts]

/-- A type and its completion have one spelling. -/
theorem text_completed {ty : TypeName} (h : ty.Everywhere Spellable) :
    ty.completed.text = ty.text := by
  induction h with
  | @mk ty _ _ ih =>
    rcases worded_or_eq ty with hworded | hnone
    · have hscopes : (ty.path.map completedScope).map scopeText = ty.path.map scopeText := by
        rw [List.map_map]
        exact List.map_congr_left fun scope hscope ↦ scopeText_completedScope (ih scope hscope)
      rw [completed_of_worded hworded, text_eq, text_eq ty]
      exact congrArg (spell ty.specifiers · ty.declarators) hscopes
    · rw [hnone, completed_of_wordless, text_eq, text_eq]
      rfl

/-- A completed type has a word at every level. -/
theorem everywhere_completed {ty : TypeName} (h : ty.Everywhere Spellable) :
    ty.completed.Everywhere fun level ↦ level.Spellable ∧ level.Worded := by
  induction h with
  | @mk ty hnames _ ih =>
    rcases worded_or_eq ty with hworded | hnone
    · have hspellable : Spellable ⟨ty.specifiers, ty.path.map completedScope, ty.declarators⟩ := by
        intro scope hscope
        obtain ⟨found, hfound, rfl⟩ := List.mem_map.mp hscope
        obtain ⟨hname, hsome⟩ := hnames found hfound
        rw [completedScope_eq]
        refine ⟨hname, fun hnil ↦ hsome ?_⟩
        obtain ⟨arguments, harguments, hmap⟩ := Option.map_eq_some_iff.mp hnil
        rw [harguments, List.map_eq_nil_iff.mp hmap]
      have hwords : Worded ⟨ty.specifiers, ty.path.map completedScope, ty.declarators⟩ :=
        hworded.imp_right fun hpath hnil ↦ hpath (List.map_eq_nil_iff.mp hnil)
      rw [completed_of_worded hworded, everywhere_mk_iff]
      refine ⟨⟨hspellable, hwords⟩, fun scope hscope arguments harguments argument hargument ↦ ?_⟩
      obtain ⟨found, hfound, rfl⟩ := List.mem_map.mp hscope
      rw [completedScope_eq] at harguments
      obtain ⟨others, hothers, rfl⟩ := Option.map_eq_some_iff.mp harguments
      obtain ⟨other, hother, rfl⟩ := List.mem_map.mp hargument
      exact ih found hfound others hothers other hother
    · have hint : IsName "int" := by decide
      rw [hnone, completed_of_wordless, everywhere_mk_iff]
      simp [Spellable, Worded, path, hint]

/-- What is read from the spelling of a type is the completed type. -/
theorem parse?_of_text {ty : TypeName} (h : ty.Everywhere Spellable) :
    parse? ty.text = some ty.completed := by
  rw [← text_completed h]
  exact parse?_text (everywhere_completed h)

/-- The spelling of a type is a normal one. -/
theorem normalize_text {ty : TypeName} (h : ty.Everywhere Spellable) :
    normalize ty.text = ty.text := by
  rw [normalize, parse?_of_text h]
  exact text_completed h

theorem normalize_of_parse? {input : String} {ty : TypeName} (h : parse? input = some ty) :
    normalize input = ty.text := by
  rw [normalize, h]

theorem normalize_of_parse?_eq_none {input : String} (h : parse? input = none) :
    normalize input = squeeze input := by
  rw [normalize, h]

end DebugLink.TypeName
