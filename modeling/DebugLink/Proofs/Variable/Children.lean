import DebugLink.Proofs.Variable.Table

/-!
The table of variable objects and its lists of children. Each operation is described by what is
found under a name afterwards (`get?_insert`, `get?_modify`, `get?_removeTree`). A table is linked
(`Linked`) if every object stands under its own name and the children that it lists are in the table
and have names of its children. Every operation keeps that, so it holds of every table that the
operations build (`Reachable.linked`), and removing an object takes out its name and those below it
and nothing else (`linked_and_removes_tree`).
-/

set_option autoImplicit false

namespace DebugLink

/-- An object without a name among its children. -/
def Variable.disown (v : Variable) (name : String) : Variable :=
  { v with children := v.children.map (·.filter (· ≠ name)) }

namespace VariableTable

open Variable

variable {table table' : VariableTable} {name parent : String} {v : Variable}
  {children : List Variable}

/-! ### Look-up -/

/-- Under its name the object that was stored is found, under others what was found before. -/
theorem get?_insert (table : VariableTable) (v : Variable) (name : String) :
    (table.insert v).get? name = if name = v.name then some v else table.get? name :=
  NamedTable.get?_insert table.objects v.name name v

/-- A modification concerns one object only. -/
theorem get?_modify (table : VariableTable) (name other : String) (f : Variable → Variable) :
    (table.modify name f).get? other =
      if other = name then (table.get? other).map f else table.get? other :=
  NamedTable.get?_modify table.objects name other f

/-- The parent disowns the name, and no other object changes. -/
theorem get?_dropChild (table : VariableTable) (name key : String) :
    (table.dropChild name).get? key =
      if parentName? name = some key then (table.get? key).map (·.disown name)
      else table.get? key := by
  unfold dropChild
  cases hparent : parentName? name with
  | none => simp
  | some parent =>
    dsimp only
    rw [get?_modify]
    by_cases hkey : key = parent
    · rw [if_pos hkey, if_pos (congrArg some hkey.symm)]
      rfl
    · rw [if_neg hkey, if_neg fun heq ↦ hkey (Option.some.inj heq).symm]

/-- After the removal of an object nothing is found under its name and those below it, its parent
does not list it any more, and everything else is as before. -/
theorem get?_removeTree (table : VariableTable) (name key : String) :
    (table.removeTree name).get? key =
      if key = name ∨ isBelow name key then none
      else if parentName? name = some key then (table.get? key).map (·.disown name)
      else table.get? key := by
  have hkept : get? ⟨table.objects.filterNames fun key ↦ !(key = name || isBelow name key)⟩ key =
      if key = name ∨ isBelow name key then none else table.get? key := by
    refine (NamedTable.get?_filterNames table.objects _ key).trans ?_
    by_cases hgone : key = name ∨ isBelow name key = true
    · rw [if_pos hgone, if_neg (by simpa [or_iff_not_imp_left] using hgone)]
    · rw [if_neg hgone, if_pos (by simpa using hgone)]
      rfl
  rw [removeTree, get?_dropChild, hkept]
  split_ifs <;> rfl

/-- What is still there after a removal was there before, and lists the same children except for the
one that was removed. -/
theorem get?_removeTree_eq_some {key : String} (h : (table.removeTree name).get? key = some v) :
    ¬(key = name ∨ isBelow name key) ∧ ∃ w, table.get? key = some w ∧ v.name = w.name ∧
      ∀ child ∈ v.children.getD [],
        child ∈ w.children.getD [] ∧ (IsChild key name → child ≠ name) := by
  rw [get?_removeTree] at h
  split_ifs at h with hgone hparent
  · obtain ⟨w, hget, rfl⟩ := Option.map_eq_some_iff.mp h
    refine ⟨hgone, w, hget, rfl, fun child hchild ↦ ?_⟩
    cases hchildren : w.children with
    | none => simp [disown, hchildren] at hchild
    | some names =>
      simp only [disown, hchildren, Option.map_some, Option.getD_some, List.mem_filter] at hchild
      exact ⟨hchild.1, fun _ ↦ of_decide_eq_true hchild.2⟩
  · exact ⟨hgone, v, h, rfl, fun child hchild ↦
      ⟨hchild, fun hkin ↦ absurd (parentName?_eq_some_iff.mpr hkin) hparent⟩⟩

/-- Storing other objects leaves an object as it is. -/
theorem get?_foldl_insert_of_notMem (h : name ∉ children.map Variable.name) :
    (children.foldl insert table).get? name = table.get? name := by
  induction children generalizing table with
  | nil => rfl
  | cons child rest ih =>
    obtain ⟨hne, hrest⟩ := not_or.mp (mt List.mem_cons.mpr h)
    rw [List.foldl_cons, ih hrest, get?_insert, if_neg hne]

/-- Each of some objects with distinct names is found after all are stored. -/
theorem get?_foldl_insert_of_mem (hnodup : (children.map Variable.name).Nodup)
    (hmem : v ∈ children) : (children.foldl insert table).get? v.name = some v := by
  induction children generalizing table with
  | nil => nomatch hmem
  | cons child rest ih =>
    obtain ⟨hnew, hrest⟩ := List.nodup_cons.mp hnodup
    rcases List.mem_cons.mp hmem with rfl | hlater
    · rw [List.foldl_cons, get?_foldl_insert_of_notMem hnew, get?_insert, if_pos rfl]
    · exact ih hrest hlater

/-- The children of an object are stored as they are. -/
theorem get?_addChildren_of_mem (hnodup : (parent :: children.map Variable.name).Nodup)
    (hmem : v ∈ children) : (table.addChildren parent children).get? v.name = some v := by
  obtain ⟨hparent, hchildren⟩ := List.nodup_cons.mp hnodup
  have hne : v.name ≠ parent := fun heq ↦ hparent (heq ▸ List.mem_map_of_mem hmem)
  rw [addChildren, get?_modify, if_neg hne, get?_foldl_insert_of_mem hchildren hmem]

/-- Other objects stay as they are when children are stored. -/
theorem get?_addChildren_of_notMem (h : name ∉ parent :: children.map Variable.name) :
    (table.addChildren parent children).get? name = table.get? name := by
  obtain ⟨hne, hnew⟩ := not_or.mp (mt List.mem_cons.mpr h)
  rw [addChildren, get?_modify, if_neg hne, get?_foldl_insert_of_notMem hnew]

/-! ### Names in order -/

/-- The names of a table are those that are known. -/
theorem mem_names_iff : name ∈ table.names ↔ name ∈ table.known :=
  List.mem_mergeSort

/-- The names are listed in increasing order. -/
theorem names_increasing (h : table.known.Nodup) : table.names.Pairwise (· < ·) := by
  have hle : table.names.Pairwise (· ≤ ·) := by
    refine (List.pairwise_mergeSort (fun a b c hab hbc ↦ ?_) (fun a b ↦ ?_) _).imp of_decide_eq_true
    · exact decide_eq_true (String.le_trans (of_decide_eq_true hab) (of_decide_eq_true hbc))
    · simpa using String.le_total a b
  have hne : table.names.Pairwise (· ≠ ·) := (List.mergeSort_perm _ _).nodup_iff.mpr h
  refine (hle.and hne).imp fun {a b} hab ↦ ?_
  exact String.not_le.mp fun hba ↦ hab.2 (String.le_antisymm hab.1 hba)

/-- The names of a tree are the object itself and what lies below it, as far as the table has them.
-/
theorem mem_treeNames_iff {key : String} :
    key ∈ table.treeNames name ↔ table.contains key ∧ (key = name ∨ isBelow name key) := by
  rw [treeNames, List.mem_filter, mem_names_iff, contains_iff]
  simp

/-! ### Linked tables -/

/-- No name stands twice, every object stands under its own name, and the children that it lists are
in the table and have names of its children. -/
structure Linked (table : VariableTable) : Prop where
  distinct : table.known.Nodup
  keyed : ∀ name v, table.get? name = some v → v.name = name
  listed : ∀ name v, table.get? name = some v → ∀ child ∈ v.children.getD [],
    IsChild name child ∧ child ∈ table.known

namespace Linked

/-- The empty table is linked. -/
theorem empty : Linked empty :=
  ⟨List.nodup_nil, nofun, nofun⟩

/-- An object that lists no children. -/
theorem insert (h : table.Linked) (hbare : v.children = none) : (table.insert v).Linked where
  distinct := NamedTable.nodup_names_insert h.distinct v.name v
  keyed name w hget := by
    rw [get?_insert] at hget
    split_ifs at hget with hname
    · rw [← Option.some.inj hget, hname]
    · exact h.keyed name w hget
  listed name w hget child hchild := by
    rw [get?_insert] at hget
    split_ifs at hget
    · rw [← Option.some.inj hget, hbare] at hchild
      nomatch hchild
    · obtain ⟨hname, hknown⟩ := h.listed name w hget child hchild
      exact ⟨hname, mem_known_insert.mpr (.inl hknown)⟩

/-- A change to an object that keeps its name and lists children that are there. -/
theorem modify {f : Variable → Variable} (h : table.Linked)
    (hname : ∀ v, table.get? name = some v → (f v).name = v.name)
    (hlisted : ∀ v, table.get? name = some v → ∀ child ∈ (f v).children.getD [],
      IsChild name child ∧ child ∈ table.known) : (table.modify name f).Linked where
  distinct := (known_modify table name f).symm ▸ h.distinct
  keyed other w hget := by
    rw [get?_modify] at hget
    split_ifs at hget with hother
    · subst hother
      obtain ⟨v, hv, rfl⟩ := Option.map_eq_some_iff.mp hget
      exact (hname v hv).trans (h.keyed _ v hv)
    · exact h.keyed other w hget
  listed other w hget := by
    rw [get?_modify] at hget
    rw [known_modify]
    split_ifs at hget with hother
    · subst hother
      obtain ⟨v, hv, rfl⟩ := Option.map_eq_some_iff.mp hget
      exact hlisted v hv
    · exact h.listed other w hget

/-- When a subtree is removed, the only list that holds one of its names is that of the parent. -/
theorem removeTree (h : table.Linked) (name : String) : (table.removeTree name).Linked where
  distinct := by
    rw [known_removeTree]
    exact h.distinct.filter _
  keyed key v hget := by
    obtain ⟨-, w, hw, hname, -⟩ := get?_removeTree_eq_some hget
    exact hname.trans (h.keyed key w hw)
  listed key v hget child hchild := by
    obtain ⟨hstays, w, hw, -, hlists⟩ := get?_removeTree_eq_some hget
    obtain ⟨hlisted, hne⟩ := hlists child hchild
    obtain ⟨hkin, hknown⟩ := h.listed key w hw child hlisted
    refine ⟨hkin, mem_known_removeTree.mpr ⟨hknown, fun hgone ↦ ?_⟩⟩
    rcases hkin.eq_or_isBelow hgone with rfl | hparent
    · exact hne hkin rfl
    · exact hstays hparent

/-- Removing trees leaves a table linked. -/
theorem foldl_removeTree (h : table.Linked) (names : List String) :
    (names.foldl VariableTable.removeTree table).Linked :=
  List.foldlRecOn names VariableTable.removeTree h fun _ hbefore name _ ↦ hbefore.removeTree name

/-- Storing objects that list nothing leaves a table linked. -/
theorem foldl_insert (h : table.Linked) (hbare : ∀ child ∈ children, child.children = none) :
    (children.foldl VariableTable.insert table).Linked :=
  List.foldlRecOn children VariableTable.insert h fun _ hbefore child hchild ↦
    hbefore.insert (hbare child hchild)

/-- Listing children leaves a table linked, if they are children and list nothing themselves. -/
theorem setChildren (h : table.Linked) (hbare : ∀ child ∈ children, child.children = none)
    (hkin : ∀ child ∈ children, IsChild parent child.name)
    (hset : table.setChildren parent children = .ok table') : table'.Linked := by
  unfold VariableTable.setChildren at hset
  split at hset
  · nomatch hset
  · rw [← Except.ok.inj hset]
    refine ((h.foldl_removeTree _).foldl_insert hbare).modify (fun _ _ ↦ rfl)
      fun _ _ child hchild ↦ ?_
    obtain ⟨reported, hreported, rfl⟩ := List.mem_map.mp hchild
    exact ⟨hkin reported hreported, mem_known_foldl_insert children |>.mpr (.inr hchild)⟩

/-- An entry of a change list leaves a table linked. -/
theorem applyUpdate (h : table.Linked) (change : Fields) : (table.applyUpdate change).2.Linked := by
  rcases applyUpdate_cases table change with heq | ⟨name, v, v', hget, hname, hchildren, hcases⟩
  · rwa [heq]
  · have hstored : (table.modify name fun _ ↦ v').Linked := by
      refine h.modify (fun w hw ↦ ?_) fun w hw child hchild ↦ ?_
      · exact hname.trans (congrArg Variable.name (Option.some.inj (hget.symm.trans hw)))
      · exact h.listed name v hget child (hchildren ▸ hchild)
    rcases hcases with heq | ⟨-, heq⟩
    · rwa [heq]
    · have hcleared : ((table.modify name fun _ ↦ v').modify name fun v ↦
          { v with children := none }).Linked :=
        hstored.modify (fun _ _ ↦ rfl) fun _ _ _ hchild ↦ absurd hchild List.not_mem_nil
      rw [heq]
      exact hcleared.foldl_removeTree _

end Linked

/-- The removal of children leaves a parent that lists none as it is. -/
theorem get?_foldl_removeTree_of_childless (hget : table.get? name = some v)
    (hchildless : v.children = none) (names : List String)
    (hnames : ∀ child ∈ names, IsChild name child) :
    (names.foldl removeTree table).get? name = some v := by
  induction names generalizing table with
  | nil => exact hget
  | cons child rest ih =>
    refine ih ?_ fun other hother ↦ hnames other (List.mem_cons_of_mem child hother)
    have hdisown : v.disown child = v := by
      unfold disown
      rw [hchildless, Option.map_none, ← hchildless]
    rw [get?_removeTree, if_neg (hnames child List.mem_cons_self).not_eq_or_isBelow, hget,
      Option.map_some, hdisown, ite_self]

/-- An object after an entry of a change list. -/
theorem get?_applyUpdate_self {change : Fields} (hname : change.text? "name" = some name)
    (hget : table.get? name = some v) (hkin : ∀ child ∈ v.children.getD [], IsChild name child) :
    (table.applyUpdate change).2.get? name = some { (changed v change).1 with
      children := if (changed v change).2.2 then none else v.children } := by
  have hsame : (changed v change).1.children = v.children := rfl
  have hstored : (table.modify name fun _ ↦ (changed v change).1).get? name =
      some (changed v change).1 := by
    rw [get?_modify, if_pos rfl, hget, Option.map_some]
  unfold VariableTable.applyUpdate
  simp only [hname, hget, hsame]
  cases hreset : (changed v change).2.2 with
  | false => exact hstored
  | true =>
    refine get?_foldl_removeTree_of_childless ?_ rfl _ hkin
    rw [get?_modify, if_pos rfl, hstored, Option.map_some]
    rfl

/-- A change entry changes its object as `changed` says, and takes its children away if its type or
their number changes. -/
theorem Linked.get?_applyUpdate (h : table.Linked) {change : Fields}
    (hname : change.text? "name" = some name) (hget : table.get? name = some v) :
    (table.applyUpdate change).2.get? name = some { (changed v change).1 with
      children := if (changed v change).2.2 then none else v.children } :=
  get?_applyUpdate_self hname hget fun child hchild ↦ (h.listed name v hget child hchild).1

/-! ### Tables that arise -/

/-- The tables that arise from the empty one when roots are created, children are listed, change
lists are applied and objects are removed. -/
inductive Reachable : VariableTable → Prop
  | empty : Reachable empty
  | create {table : VariableTable} {expression : String} {fields : Fields} {v : Variable}
      (h : Reachable table) (hcreate : Variable.ofCreate expression fields = .ok v)
      (hroot : isRootName v.name) : Reachable (table.insert v)
  | list {table table' : VariableTable} {parent : String} {children : List Variable}
      (h : Reachable table) (hbuilt : ∀ child ∈ children, ∃ fields, ofChild? fields = some child)
      (hkin : ∀ child ∈ children, IsChild parent child.name)
      (hset : table.setChildren parent children = .ok table') : Reachable table'
  | update {table : VariableTable} (h : Reachable table) (change : Fields) :
      Reachable (table.applyUpdate change).2
  | remove {table : VariableTable} (h : Reachable table) (name : String) :
      Reachable (table.removeTree name)

/-- Every table that is reached is linked. -/
theorem Reachable.linked (h : Reachable table) : table.Linked := by
  induction h with
  | empty => exact .empty
  | create _ hcreate _ ih => exact ih.insert (ofCreate_eq_ok hcreate).2
  | list _ hbuilt hkin hset ih =>
    refine ih.setChildren (fun child hchild ↦ ?_) hkin hset
    obtain ⟨fields, hfields⟩ := hbuilt child hchild
    exact ofChild?_children hfields
  | update _ change ih => exact ih.applyUpdate change
  | remove _ name ih => exact ih.removeTree name

/-- In every table that arises, each object stands under its own name, and the children that it
lists are in the table and have names of its children. Removing an object removes exactly its name
and those that begin with its name and a dot, which are listed in increasing order; the parent does
not list it any more, and everything else is as before. -/
theorem linked_and_removes_tree (h : Reachable table) :
    (∀ name v, table.get? name = some v → v.name = name ∧
      ∀ child ∈ v.children.getD [], IsChild name child ∧ table.contains child) ∧
    ∀ name,
      (table.treeNames name).Pairwise (· < ·) ∧
      (∀ key, key ∈ table.treeNames name ↔
        table.contains key ∧ (key = name ∨ isBelow name key)) ∧
      (∀ key ∈ table.treeNames name, (table.removeTree name).get? key = none) ∧
      (∀ key, IsChild key name →
        (table.removeTree name).get? key = (table.get? key).map (·.disown name)) ∧
      ∀ key, key ∉ table.treeNames name → ¬IsChild key name →
        (table.removeTree name).get? key = table.get? key := by
  have hlinked := h.linked
  refine ⟨fun name v hget ↦ ⟨hlinked.keyed name v hget, fun child hchild ↦ ?_⟩, fun name ↦
    ⟨(names_increasing hlinked.distinct).filter _, fun _ ↦ mem_treeNames_iff, fun key hkey ↦ ?_,
      fun key hkin ↦ ?_, fun key hkey hkin ↦ ?_⟩⟩
  · obtain ⟨hkin, hknown⟩ := hlinked.listed name v hget child hchild
    exact ⟨hkin, contains_iff.mpr hknown⟩
  · rw [get?_removeTree, if_pos (mem_treeNames_iff.mp hkey).2]
  · rw [get?_removeTree, if_neg hkin.not_eq_or_isBelow, if_pos (parentName?_eq_some_iff.mpr hkin)]
  · have hparent : parentName? name ≠ some key := fun heq ↦ hkin (parentName?_eq_some_iff.mp heq)
    rw [get?_removeTree, if_neg hparent]
    split_ifs with hgone
    · -- A name that would have gone was not there.
      have hnone : ¬table.contains key := fun hthere ↦ hkey (mem_treeNames_iff.mpr ⟨hthere, hgone⟩)
      exact (Option.not_isSome_iff_eq_none.mp hnone).symm
    · rfl

/-- An object of which only the name is reported. -/
def bare (name : String) : Variable :=
  ⟨name, name, none, none, 0, true, none, none⟩

/-- Two roots, of which one begins like the other. -/
def twoRoots : VariableTable :=
  (empty.insert (bare "var1")).insert (bare "var10")

/-- The two roots and the children of the first one. -/
def branched : VariableTable :=
  ⟨⟨[("var1", { bare "var1" with childCount := 2, children := some ["var1.a", "var1.b"] }),
    ("var10", bare "var10"), ("var1.a", bare "var1.a"), ("var1.b", bare "var1.b")]⟩⟩

/-- The same with a child of a child. -/
def nested : VariableTable :=
  ⟨⟨[("var1", { bare "var1" with childCount := 2, children := some ["var1.a", "var1.b"] }),
    ("var10", bare "var10"),
    ("var1.a", { bare "var1.a" with childCount := 1, children := some ["var1.a.x"] }),
    ("var1.b", bare "var1.b"), ("var1.a.x", bare "var1.a.x")]⟩⟩

/-- A table with three levels is reached. -/
theorem reachable_nested : Reachable nested := by
  have hcreated : ∀ name, ofCreate name ⟨[("name", .text name)]⟩ = .ok (bare name) := fun _ ↦ rfl
  have hlisted : ∀ name, ofChild? ⟨[("name", .text name)]⟩ = some (bare name) := fun _ ↦ rfl
  have hroots : Reachable twoRoots :=
    (Reachable.empty.create (hcreated "var1") rfl).create (hcreated "var10") rfl
  have hfirst : twoRoots.setChildren "var1" [bare "var1.a", bare "var1.b"] = .ok branched := rfl
  have hsecond : branched.setChildren "var1.a" [bare "var1.a.x"] = .ok nested := rfl
  refine (hroots.list ?_ ?_ hfirst).list ?_ ?_ hsecond
  · exact List.forall_mem_cons.mpr ⟨⟨_, hlisted "var1.a"⟩,
      List.forall_mem_singleton.mpr ⟨_, hlisted "var1.b"⟩⟩
  · exact List.forall_mem_cons.mpr ⟨⟨"a", by decide, rfl⟩,
      List.forall_mem_singleton.mpr ⟨"b", by decide, rfl⟩⟩
  · exact List.forall_mem_singleton.mpr ⟨_, hlisted "var1.a.x"⟩
  · exact List.forall_mem_singleton.mpr ⟨"x", by decide, rfl⟩

/-- Removing a tree from the nested table, at the root and at its child. -/
theorem linked_and_removes_tree_of_nested :
    Reachable nested ∧ nested.contains "var1.a.x" ∧
      "var1.a.x" ∈ nested.treeNames "var1" ∧ "var10" ∉ nested.treeNames "var1" ∧
      (nested.removeTree "var1").get? "var1.a.x" = none ∧
      (nested.removeTree "var1").get? "var10" = nested.get? "var10" ∧
      (nested.removeTree "var1.a").get? "var1" = (nested.get? "var1").map (·.disown "var1.a") := by
  obtain ⟨hlinked, hremoves⟩ := linked_and_removes_tree reachable_nested
  obtain ⟨-, hmem, hgone, -, hkept⟩ := hremoves "var1"
  obtain ⟨-, -, -, hparent, -⟩ := hremoves "var1.a"
  have hbelow : nested.contains "var1.a.x" := (hlinked "var1.a" _ rfl).2 "var1.a.x" (by decide) |>.2
  have hinside : "var1.a.x" ∈ nested.treeNames "var1" := (hmem "var1.a.x").mpr ⟨hbelow, by decide⟩
  have houtside : "var10" ∉ nested.treeNames "var1" := fun h ↦
    absurd ((hmem "var10").mp h).2 (by decide)
  refine ⟨reachable_nested, hbelow, hinside, houtside, hgone _ hinside, hkept "var10" houtside ?_,
    hparent "var1" ⟨"a", by decide, rfl⟩⟩
  exact fun hchild ↦ absurd (parentName?_eq_some_iff.mpr hchild) (by decide)

end VariableTable

end DebugLink
