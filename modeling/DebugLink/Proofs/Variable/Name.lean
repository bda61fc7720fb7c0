import DebugLink.Variable.Basic
import Mathlib.Data.List.TakeWhile

/-!
The names of variable objects and their roots. The root of a name is the part before its first dot;
for a name without a dot the names that go with it are exactly those that have it as their root
(`eq_or_isBelow_iff`). The parent of a name is the part before its last dot
(`parentName?_eq_some_iff`), and a child goes with a name exactly if it is that name or its parent
goes with it (`IsChild.eq_or_isBelow`).
-/

set_option autoImplicit false

namespace DebugLink.Variable

variable {root name ancestor parent : String}

theorem isRootName_iff : isRootName name ↔ '.' ∉ name.toList := by
  simp [isRootName]

theorem toList_rootOf (name : String) :
    (rootOf name).toList = name.toList.takeWhile (· ≠ '.') := by
  rw [rootOf, String.toList_ofList]

theorem isBelow_iff :
    isBelow ancestor name ↔ ∃ rest, name.toList = ancestor.toList ++ '.' :: rest := by
  rw [isBelow, String.toList_append, List.isPrefixOf_iff_prefix]
  constructor
  · rintro ⟨rest, hrest⟩
    exact ⟨rest, by simpa using hrest.symm⟩
  · rintro ⟨rest, hrest⟩
    exact ⟨rest, by simp [hrest]⟩

theorem rootOf_eq_self (h : isRootName name) : rootOf name = name := by
  rw [isRootName_iff] at h
  rw [rootOf, List.takeWhile_eq_self_iff.mpr, String.ofList_toList]
  intro c hc
  have hne : c ≠ '.' := fun heq ↦ h (heq ▸ hc)
  simpa using hne

theorem isRootName_rootOf (name : String) : isRootName (rootOf name) := by
  rw [isRootName_iff, toList_rootOf]
  intro hmem
  simpa using List.mem_takeWhile_imp hmem

theorem rootOf_of_isBelow (h : isBelow ancestor name) : rootOf name = rootOf ancestor := by
  obtain ⟨rest, hrest⟩ := isBelow_iff.mp h
  have htake : ∀ before : List Char, (before ++ '.' :: rest).takeWhile (· ≠ '.') =
      before.takeWhile (· ≠ '.') := by
    intro before
    induction before with
    | nil => simp
    | cons c before ih =>
      by_cases hc : c = '.'
      · simp [hc]
      · simpa [hc] using ih
  rw [rootOf, rootOf, hrest, htake]

theorem not_isRootName_of_isBelow (h : isBelow ancestor name) : ¬isRootName name := by
  obtain ⟨rest, hrest⟩ := isBelow_iff.mp h
  rw [isRootName_iff, hrest]
  simp

/-- What begins at the first dot begins with a dot. -/
theorem eq_dot_of_dropWhile {chars rest : List Char} {c : Char}
    (h : chars.dropWhile (· ≠ '.') = c :: rest) : c = '.' := by
  have hne : chars.dropWhile (· ≠ '.') ≠ [] := h ▸ List.cons_ne_nil c rest
  have hhead := List.head_dropWhile_not (· ≠ '.') hne
  simp only [h, List.head_cons] at hhead
  simpa using hhead

/-- What goes with a root is what has it as its root. -/
theorem eq_or_isBelow_iff (h : isRootName root) :
    name = root ∨ isBelow root name ↔ rootOf name = root := by
  constructor
  · rintro (rfl | hbelow)
    · exact rootOf_eq_self h
    · rw [rootOf_of_isBelow hbelow, rootOf_eq_self h]
  · rintro rfl
    have hsplit := List.takeWhile_append_dropWhile (p := (· ≠ '.')) (l := name.toList)
    rw [isBelow_iff, toList_rootOf]
    cases hrest : name.toList.dropWhile (· ≠ '.') with
    | nil =>
      left
      rw [hrest, List.append_nil] at hsplit
      rw [rootOf, hsplit, String.ofList_toList]
    | cons c rest =>
      right
      have hc := eq_dot_of_dropWhile hrest
      subst hc
      exact ⟨rest, by rw [← hrest, hsplit]⟩

theorem parentName?_eq_none (h : isRootName name) : parentName? name = none := by
  rw [isRootName_iff] at h
  have hnone : name.toList.reverse.dropWhile (· ≠ '.') = [] := by
    rw [List.dropWhile_eq_nil_iff]
    intro c hc
    have hne : c ≠ '.' := fun heq ↦ h (heq ▸ List.mem_reverse.mp hc)
    simpa using hne
  rw [parentName?, hnone]

/-! ### Children -/

/-- Whether a name is that of a child: the name of the parent, a dot, and a part without a dot. -/
def IsChild (parent name : String) : Prop :=
  ∃ part : String, '.' ∉ part.toList ∧ name = parent ++ "." ++ part

theorem isChild_iff : IsChild parent name ↔
    ∃ part : List Char, '.' ∉ part ∧ name.toList = parent.toList ++ '.' :: part := by
  constructor
  · rintro ⟨part, hpart, rfl⟩
    exact ⟨part.toList, hpart, by simp⟩
  · rintro ⟨part, hpart, hname⟩
    refine ⟨String.ofList part, by simpa using hpart, ?_⟩
    rw [String.ext_iff, hname]
    simp

theorem parentName?_eq_some_iff : parentName? name = some parent ↔ IsChild parent name := by
  rw [isChild_iff]
  unfold parentName?
  constructor
  · intro h
    have hsplit := List.takeWhile_append_dropWhile (p := (· ≠ '.')) (l := name.toList.reverse)
    split at h
    · nomatch h
    · rename_i c before hdrop
      rw [hdrop, eq_dot_of_dropWhile hdrop] at hsplit
      have hname := congrArg List.reverse hsplit
      rw [List.reverse_reverse, List.reverse_append, List.reverse_cons] at hname
      refine ⟨_, ?_, by simpa [← Option.some.inj h] using hname.symm⟩
      rw [List.mem_reverse]
      intro hmem
      simpa using List.mem_takeWhile_imp hmem
  · rintro ⟨part, hpart, hname⟩
    have hpass : ∀ c ∈ part.reverse, decide (c ≠ '.') = true := fun c hc ↦
      decide_eq_true fun hdot ↦ hpart (hdot ▸ List.mem_reverse.mp hc)
    rw [hname, List.reverse_append, List.reverse_cons, List.append_assoc,
      List.dropWhile_append_of_pos hpass]
    simp

/-- A parent does not go with the name of its child. -/
theorem IsChild.not_eq_or_isBelow (h : IsChild parent name) :
    ¬(parent = name ∨ isBelow name parent) := by
  obtain ⟨part, -, hname⟩ := isChild_iff.mp h
  have hlength := congrArg List.length hname
  rintro (rfl | hbelow)
  · simp at hlength
  · obtain ⟨rest, hrest⟩ := isBelow_iff.mp hbelow
    have hlength' := congrArg List.length hrest
    simp only [List.length_append, List.length_cons] at hlength hlength'
    omega

/-- A child that goes with a name is that name itself, or its parent goes with it too. -/
theorem IsChild.eq_or_isBelow (h : IsChild parent name)
    (hname : name = ancestor ∨ isBelow ancestor name) :
    name = ancestor ∨ parent = ancestor ∨ isBelow ancestor parent := by
  refine hname.imp_right fun hbelow ↦ ?_
  obtain ⟨part, hpart, heq⟩ := isChild_iff.mp h
  obtain ⟨rest, hrest⟩ := isBelow_iff.mp hbelow
  rw [heq, List.append_eq_append_iff] at hrest
  -- One of the two names before the dots is the beginning of the other.
  rcases hrest with ⟨between, hancestor, hmiddle⟩ | ⟨between, hparent, hmiddle⟩
  · cases between with
    | nil =>
      rw [List.append_nil] at hancestor
      exact .inl (String.ext hancestor.symm)
    | cons c between =>
      obtain ⟨-, hlast⟩ := List.cons.inj hmiddle
      exact absurd (hlast ▸ List.mem_append_right between List.mem_cons_self) hpart
  · cases between with
    | nil =>
      rw [List.append_nil] at hparent
      exact .inl (String.ext hparent)
    | cons c between =>
      obtain ⟨rfl, -⟩ := List.cons.inj hmiddle
      exact .inr (isBelow_iff.mpr ⟨between, hparent⟩)

end DebugLink.Variable
