import DebugLink.Proofs.TypeName.Normal
import DebugLink.Watch.Shape

/-!
The shape of a type and of its normal spelling. What is read from a normal spelling is the type with
`int` in the place of every missing word. No rule of the ordered list tells the two apart: a type
without a word is a number like `int`, no other rule asks for that name, and template arguments and
pointees are completed one by one, which leaves their spellings as they are (`ofType_completed`). A
text that is not read stays one when its blanks are squeezed, so in texts without other white space
normalization keeps the family of decoders (`classify_normalize`).
-/

set_option autoImplicit false

namespace DebugLink

namespace TypeName

/-! ### Parts of completed types -/

theorem declarators_completed (ty : TypeName) : ty.completed.declarators = ty.declarators := by
  rcases worded_or_eq ty with hworded | hnone
  · rw [completed_of_worded hworded]
    rfl
  · rw [hnone, completed_of_wordless]
    rfl

theorem specifiers_completed (ty : TypeName) : ty.completed.specifiers = ty.specifiers := by
  rcases worded_or_eq ty with hworded | hnone
  · rw [completed_of_worded hworded]
    rfl
  · rw [hnone, completed_of_wordless]
    rfl

/-- Markers have no part in the completion of a type. -/
theorem completed_declarators (ty : TypeName) (declarators : List Marker) :
    completed ⟨ty.specifiers, ty.path, declarators⟩ =
      ⟨ty.completed.specifiers, ty.completed.path, declarators⟩ := by
  rcases worded_or_eq ty with hworded | hnone
  · have hother : Worded ⟨ty.specifiers, ty.path, declarators⟩ := hworded
    rw [completed_of_worded hworded, completed_of_worded hother]
    rfl
  · rw [hnone, completed_of_wordless]
    exact completed_of_wordless declarators

theorem withoutReference_completed (ty : TypeName) :
    ty.completed.withoutReference = ty.withoutReference.completed := by
  rw [withoutReference, withoutReference, completed_declarators, declarators_completed]

theorem pointee?_completed (ty : TypeName) :
    ty.completed.pointee? = ty.pointee?.map completed := by
  rw [pointee?, pointee?, isPointer, isPointer, declarators_completed]
  split_ifs
  · rw [Option.map_some, completed_declarators]
  · rfl

theorem templateArguments_completed (ty : TypeName) :
    ty.completed.templateArguments = ty.templateArguments.map completed := by
  rcases worded_or_eq ty with hworded | hnone
  · have hlast : ty.completed.path.getLast? = ty.path.getLast?.map completedScope := by
      rw [completed_of_worded hworded]
      exact List.getLast?_map
    rw [templateArguments, templateArguments, hlast]
    cases ty.path.getLast? with
    | none => rfl
    | some scope =>
      obtain ⟨name, arguments⟩ := scope
      rw [Option.map_some, completedScope_eq]
      cases arguments <;> rfl
  · rw [hnone, completed_of_wordless]
    rfl

theorem baseName_completed {ty : TypeName} (h : ty.Worded) :
    ty.completed.baseName = ty.baseName := by
  have hnames : (ty.path.map completedScope).map Scope.name = ty.path.map Scope.name := by
    rw [List.map_map]
    exact List.map_congr_left fun scope _ ↦ by rw [Function.comp_apply, completedScope_eq]
  obtain ⟨specifiers, path, declarators⟩ := ty
  rw [completed_of_worded h, baseName, baseName]
  cases path with
  | nil => rfl
  | cons scope rest =>
    exact congrArg (fun names ↦ " ".intercalate
      (specifiers.map SizeWord.text ++ ["::".intercalate names])) hnames

/-! ### Parts that can be spelled -/

variable {ty : TypeName}

theorem everywhere_declarators (h : ty.Everywhere Spellable) (declarators : List Marker) :
    Everywhere Spellable ⟨ty.specifiers, ty.path, declarators⟩ := by
  obtain ⟨hnames, harguments⟩ := h
  exact .mk hnames harguments

theorem everywhere_withoutReference (h : ty.Everywhere Spellable) :
    ty.withoutReference.Everywhere Spellable :=
  everywhere_declarators h _

theorem everywhere_pointee {pointee : TypeName} (h : ty.Everywhere Spellable)
    (hpointee : ty.pointee? = some pointee) : pointee.Everywhere Spellable := by
  rw [pointee?] at hpointee
  split_ifs at hpointee
  cases hpointee
  exact everywhere_declarators h _

theorem everywhere_templateArguments (h : ty.Everywhere Spellable) :
    ∀ argument ∈ ty.templateArguments, argument.Everywhere Spellable := by
  obtain ⟨-, harguments⟩ := h
  intro argument hargument
  rw [templateArguments] at hargument
  cases hlast : ty.path.getLast? with
  | none =>
    rw [hlast] at hargument
    cases hargument
  | some scope =>
    obtain ⟨name, arguments⟩ := scope
    rw [hlast] at hargument
    cases arguments with
    | none => cases hargument
    | some arguments =>
      exact harguments _ (List.mem_of_getLast? hlast) arguments rfl argument hargument

end TypeName

namespace Shape

open DebugLink.TypeName

/-- The same family, and types that are spelled alike. -/
def Alike : Shape → Shape → Prop
  | map key value, map key' value' => key.text = key'.text ∧ value.text = value'.text
  | shape, other => shape = other

/-! ### The rules -/

variable {ty : TypeName}

theorem isIntegral_completed (ty : TypeName) : isIntegral ty.completed = isIntegral ty := by
  rcases worded_or_eq ty with hworded | hnone
  · obtain ⟨specifiers, path, declarators⟩ := ty
    rw [completed_of_worded hworded]
    match path with
    | [] => rfl
    | ⟨_, none⟩ :: rest | ⟨_, some _⟩ :: rest => cases rest <;> rfl
  · rw [hnone, completed_of_wordless]
    rfl

/-- A rule that asks for other names than `int` finds the same types. -/
theorem isNamed_completed {names : List String} (hint : "int" ∉ names) (hnone : "" ∉ names)
    (ty : TypeName) : isNamed names ty.completed = isNamed names ty := by
  rw [isNamed, isNamed, declarators_completed]
  rcases worded_or_eq ty with hworded | hwordless
  · rw [baseName_completed hworded]
  · have hbase : baseName ⟨[], [], ty.declarators⟩ = "" := rfl
    have hbase' : baseName ⟨[], [⟨"int", none⟩], ty.declarators⟩ = "int" := by
      simp [baseName, specifiers, path]
    rw [hwordless, completed_of_wordless, hbase, hbase']
    simp [hint, hnone]

theorem isChar_completed (ty : TypeName) : isChar ty.completed = isChar ty := by
  rw [isChar, isChar, specifiers_completed, isNamed_completed (by decide) (by decide)]

theorem isCString_completed (ty : TypeName) : isCString ty.completed = isCString ty := by
  have hchar : isChar ∘ completed = isChar := funext isChar_completed
  rw [isCString, isCString, declarators_completed, pointee?_completed, Option.map_map, hchar]

/-- A type and its completion have the same shape. -/
theorem ofType_completed (h : ty.Everywhere Spellable) :
    (ofType ty.completed).Alike (ofType ty) := by
  rw [ofType, ofType, isIntegral_completed, isChar_completed, isCString_completed,
    isNamed_completed (by decide) (by decide), isNamed_completed (by decide) (by decide),
    isNamed_completed (by decide) (by decide), isNamed_completed (by decide) (by decide),
    templateArguments_completed, pointee?_completed, List.length_map]
  split_ifs
  · rfl
  · rfl
  · rfl
  · rfl
  · rfl
  · rfl
  · have hspelled := everywhere_templateArguments h
    have hmap : ∀ key value others, ty.templateArguments = key :: value :: others →
        Alike (map key.completed value.completed) (map key value) := by
      intro key value others harguments
      rw [harguments] at hspelled
      exact ⟨text_completed (hspelled key (by simp)), text_completed (hspelled value (by simp))⟩
    have hpointer : ∀ pointee, ty.pointee? = some pointee →
        Alike (pointer pointee.completed.text) (pointer pointee.text) := fun pointee hpointee ↦
      congrArg pointer (text_completed (everywhere_pointee h hpointee))
    cases hpointee : ty.pointee? with
    | none =>
      cases isNamed ["std::map"] ty with
      | false => rfl
      | true =>
        rcases harguments : ty.templateArguments with _ | ⟨key, _ | ⟨value, others⟩⟩
        · rfl
        · rfl
        · exact hmap key value others harguments
    | some pointee =>
      cases isNamed ["std::map"] ty with
      | false => exact hpointer pointee hpointee
      | true =>
        rcases harguments : ty.templateArguments with _ | ⟨key, _ | ⟨value, others⟩⟩
        · exact hpointer pointee hpointee
        · exact hpointer pointee hpointee
        · exact hmap key value others harguments

/-- In texts with no white space but spaces and tabs the normal spelling of a type has the shape of
the type. -/
theorem classify_normalize {input : String} (h : OnlyBlanks input.toList) :
    (classify (normalize input)).Alike (classify input) := by
  cases hread : parse? input with
  | none =>
    have hagain : parse? (normalize input) = none := by
      rw [normalize_of_parse?_eq_none hread, parse?_squeeze h, hread]
    rw [classify, classify, hread, hagain]
    exact rfl
  | some ty =>
    rw [classify, classify, parse?_normalize hread, hread]
    dsimp only
    rw [withoutReference_completed]
    exact ofType_completed (everywhere_withoutReference (spellable_of_parse? hread))

/-- A map from numbers to pointers with its words left out, between tabs and spaces. -/
theorem classify_normalize_of_map :
    OnlyBlanks "\tconst ::std::map< unsigned,\tconst * > &".toList ∧
      normalize "\tconst ::std::map< unsigned,\tconst * > &" = "std::map<int, int *> &" ∧
      (classify "std::map<int, int *> &").Alike
        (classify "\tconst ::std::map< unsigned,\tconst * > &") := by
  have hblanks : OnlyBlanks "\tconst ::std::map< unsigned,\tconst * > &".toList := by
    decide +kernel
  have hnormal : normalize "\tconst ::std::map< unsigned,\tconst * > &" =
      "std::map<int, int *> &" := by decide +kernel
  exact ⟨hblanks, hnormal, hnormal ▸ classify_normalize hblanks⟩

end Shape

end DebugLink
