import DebugLink.Proofs.Files.Tree

/-!
What is added to a file tree. A directory is made and a new file is written only where nothing was,
so every path that led to something leads to it afterwards (`Adds.get?_eq`). Making directories
brings no file (`makeDirectories_adds`).
-/

set_option autoImplicit false

namespace DebugLink.FileTree

variable {tree next after : FileTree} {place : Location} {path : Path}

/-- One tree comes of another by adding to it. The new files are among those of a relation between
places and contents. -/
structure Adds (tree after : FileTree) (files : Location → String → Prop) : Prop where
  kept : ∀ place node, tree.nodeAt? place = some node → after.nodeAt? place = some node
  file : ∀ place content, after.nodeAt? place = some (.file content) →
    tree.nodeAt? place = some (.file content) ∨ files place content

namespace Adds

variable {files files' : Location → String → Prop}

theorem refl (tree : FileTree) (files : Location → String → Prop) : tree.Adds tree files :=
  ⟨fun _ _ h ↦ h, fun _ _ h ↦ .inl h⟩

theorem trans (h : tree.Adds next files) (h' : next.Adds after files') :
    tree.Adds after fun place content ↦ files place content ∨ files' place content := by
  refine ⟨fun place node hnode ↦ h'.kept place node (h.kept place node hnode),
    fun place content hcontent ↦ ?_⟩
  rcases h'.file place content hcontent with hbefore | hnew
  · exact (h.file place content hbefore).imp_right .inl
  · exact .inr (.inr hnew)

theorem follow?_eq (h : tree.Adds after files) {parts : List String} {last : Location}
    (hfollow : tree.follow? place parts = some last) : after.follow? place parts = some last := by
  induction parts generalizing place with
  | nil => exact hfollow
  | cons part rest ih =>
    rw [follow?_cons] at hfollow ⊢
    split_ifs at hfollow with hdirectory
    obtain ⟨step, hstep, hrest⟩ := Option.bind_eq_some_iff.mp hfollow
    rw [if_pos (h.kept place _ hdirectory), hstep]
    exact ih hrest

theorem mono (h : tree.Adds after files)
    (hfiles : ∀ place content, files place content → files' place content) :
    tree.Adds after files' :=
  ⟨h.kept, fun place content hcontent ↦ (h.file place content hcontent).imp_right
    (hfiles place content)⟩

/-- A path that leads somewhere leads there afterwards. -/
theorem locate?_eq (h : tree.Adds after files) (hlocate : tree.locate? path = some place) :
    after.locate? path = some place := by
  unfold locate? at hlocate ⊢
  split_ifs at hlocate with hadmissible
  exact (if_pos hadmissible).trans (h.follow?_eq hlocate)

/-- A path that leads to something leads to it afterwards. -/
theorem get?_eq (h : tree.Adds after files) {node : FileNode} (hget : tree.get? path = some node) :
    after.get? path = some node := by
  obtain ⟨place, hlocate, hnode⟩ := locate?_of_get? hget
  rw [get?_of_locate? (h.locate?_eq hlocate)]
  exact h.kept place node hnode

end Adds

/-! ### Where nothing was -/

theorem nodeAt?_put (hplace : place ≠ []) (node : FileNode) (other : Location) :
    (tree.put place node).nodeAt? other =
      if other = place then some node else tree.nodeAt? other := by
  by_cases hother : other = []
  · rw [hother, nodeAt?_nil, nodeAt?_nil, if_neg hplace.symm]
  · rw [nodeAt?_of_ne hother, nodeAt?_of_ne hother, put, List.lookup_append,
      Entries.lookup_filter_ne, Entries.lookup_entry_cons]
    split_ifs
    · rfl
    · exact Option.or_none

/-- Where nothing was, something is added. -/
theorem adds_put {node : FileNode} {files : Location → String → Prop}
    (hfree : tree.nodeAt? place = none)
    (hfiles : ∀ content, node = .file content → files place content) :
    tree.Adds (tree.put place node) files := by
  have hplace : place ≠ [] := by
    rintro rfl
    exact absurd hfree nofun
  refine ⟨fun other found hfound ↦ ?_, fun other content hcontent ↦ ?_⟩
  · have hne : other ≠ place := by
      rintro rfl
      exact absurd (hfree.symm.trans hfound) nofun
    rw [nodeAt?_put hplace, if_neg hne, hfound]
  · rw [nodeAt?_put hplace] at hcontent
    split_ifs at hcontent with hsame
    · rw [hsame]
      exact .inr (hfiles content (Option.some.inj hcontent))
    · exact .inl hcontent

/-! ### Directories -/

/-- No place has a new file. -/
abbrev NoFile : Location → String → Prop :=
  fun _ _ ↦ False

/-- Making a directory adds no file. -/
theorem makeDirectory?_adds (h : tree.makeDirectory? path = some after) :
    tree.Adds after NoFile := by
  unfold makeDirectory? at h
  split_ifs at h with hthere
  · obtain rfl : tree = after := Option.some.inj h
    exact .refl tree NoFile
  · obtain ⟨place, -, hmade⟩ := Option.bind_eq_some_iff.mp h
    split_ifs at hmade with hfree
    obtain rfl : tree.put place .directory = after := Option.some.inj hmade
    exact adds_put hfree.2 nofun

theorem inOrder_makeDirectory?_adds (paths : List Path) (tree : FileTree) : tree.Adds
    (Change.inOrder (paths.map fun path ↦ Change.attempt (·.makeDirectory? path)) tree).2
      NoFile := by
  induction paths generalizing tree with
  | nil => exact .refl tree NoFile
  | cons path rest ih =>
    rw [List.map_cons, Change.inOrder, Change.attempt]
    cases hmade : tree.makeDirectory? path with
    | none => exact .refl tree NoFile
    | some next => exact ((makeDirectory?_adds hmade).trans (ih next)).mono fun _ _ h ↦ h.elim id id

/-- Making directories adds no file, even if not all of them can be made. -/
theorem makeDirectories_adds (path : Path) (tree : FileTree) :
    tree.Adds (makeDirectories path tree).2 NoFile := by
  unfold makeDirectories
  split_ifs
  · exact inOrder_makeDirectory?_adds path.ancestors.reverse tree
  · exact .refl tree NoFile

/-! ### A file -/

/-- Writing a file where nothing was adds this file, and the path leads to it. -/
theorem write?_adds {content : String} (hfree : tree.get? path = none)
    (h : tree.write? path content = some after) : after.get? path = some (.file content) ∧
      tree.Adds after fun place new ↦ after.locate? path = some place ∧ new = content := by
  obtain ⟨place, hlocate, hwrite⟩ := Option.bind_eq_some_iff.mp h
  split_ifs at hwrite with hdirectory
  obtain rfl : tree.put place (.file content) = after := Option.some.inj hwrite
  have hplace : place ≠ [] := by
    rintro rfl
    exact hdirectory (nodeAt?_nil tree)
  rw [get?_of_locate? hlocate] at hfree
  have hadds : tree.Adds (tree.put place (.file content)) fun other new ↦
      other = place ∧ new = content :=
    adds_put hfree fun new hnew ↦ ⟨rfl, (FileNode.file.inj hnew).symm⟩
  have hlocate' := hadds.locate?_eq hlocate
  refine ⟨?_, hadds.mono ?_⟩
  · rw [get?_of_locate? hlocate', nodeAt?_put hplace, if_pos rfl]
  · rintro other new ⟨rfl, rfl⟩
    exact ⟨hlocate', rfl⟩

end DebugLink.FileTree
