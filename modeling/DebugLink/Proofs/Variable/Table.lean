import DebugLink.Proofs.Table.Named
import DebugLink.Proofs.Variable.Name
import DebugLink.Variable.Table

/-!
What the operations of the table of variable objects do to its names. `Grown` says that a table is
another one with some roots more, each with objects of its own: what was there before is still
there, unchanged and in its place. `Orderly` is the shape that every table keeps: each object stands
under its own name, and children have names of children.
-/

set_option autoImplicit false

namespace DebugLink

/-- Whether the children of an object have names of children. -/
def Variable.Dotted (v : Variable) : Prop :=
  ∀ child ∈ v.children.getD [], ¬isRootName child

/-! ### Objects as they are reported -/

namespace Variable

variable {expression : String} {fields : Fields} {v : Variable}

/-- An object that was created has the name that the debugger gave it, and no children. -/
theorem ofCreate_eq_ok (h : ofCreate expression fields = .ok v) :
    fields.text? "name" = some v.name ∧ v.children = none := by
  unfold ofCreate at h
  split at h
  · nomatch h
  · rename_i hname
    obtain rfl := Except.ok.inj h
    exact ⟨hname, rfl⟩

theorem ofChild?_children (h : ofChild? fields = some v) : v.children = none := by
  obtain ⟨_, -, rfl⟩ := Option.map_eq_some_iff.mp h
  rfl

end Variable

namespace VariableTable

open Variable

variable {table table' start : VariableTable} {live live' : List String} {name root parent : String}
  {v : Variable}

/-- The names of the objects, the oldest first. -/
def known (table : VariableTable) : List String :=
  table.objects.names

theorem contains_iff : table.contains name ↔ name ∈ table.known :=
  NamedTable.isSome_get?_iff

theorem mem_known_of_get? (h : table.get? name = some v) : name ∈ table.known :=
  contains_iff.mp (Option.isSome_of_eq_some h)

/-! ### What operations do to the names -/

/-- An object that is inserted comes in under its name. -/
theorem known_insert (table : VariableTable) (v : Variable) :
    (table.insert v).known =
      if v.name ∈ table.known then table.known else table.known ++ [v.name] :=
  NamedTable.names_insert table.objects v.name v

theorem mem_known_insert : name ∈ (table.insert v).known ↔ name ∈ table.known ∨ name = v.name := by
  rw [known_insert]
  split_ifs with h
  · exact ⟨.inl, fun hname ↦ hname.elim id fun heq ↦ heq ▸ h⟩
  · rw [List.mem_append, List.mem_singleton]

/-- To modify an object changes no name. -/
@[simp]
theorem known_modify (table : VariableTable) (name : String) (f : Variable → Variable) :
    (table.modify name f).known = table.known :=
  NamedTable.names_modify table.objects name f

/-- A child that its parent drops stays in the table. -/
@[simp]
theorem known_dropChild (table : VariableTable) (name : String) :
    (table.dropChild name).known = table.known := by
  unfold dropChild
  split
  · rfl
  · exact known_modify table _ _

/-- With a tree everything below its root goes. -/
theorem known_removeTree (table : VariableTable) (name : String) :
    (table.removeTree name).known =
      table.known.filter fun key ↦ !(key = name || isBelow name key) := by
  rw [removeTree, known_dropChild]
  exact NamedTable.names_filterNames table.objects _

theorem mem_known_removeTree :
    name ∈ (table.removeTree root).known ↔
      name ∈ table.known ∧ ¬(name = root ∨ isBelow root name) := by
  rw [known_removeTree, List.mem_filter]
  simp

/-- To remove a root is to remove every object that has it as its root. -/
theorem removeTree_of_isRootName (table : VariableTable) (h : isRootName root) :
    table.removeTree root = ⟨table.objects.filterNames fun key ↦ rootOf key ≠ root⟩ := by
  have hkeep : (fun key ↦ !(decide (key = root) || isBelow root key)) =
      fun key ↦ decide (rootOf key ≠ root) := by
    funext key
    rw [Bool.eq_iff_iff]
    have hiff : key = root ∨ isBelow root key ↔ rootOf key = root := eq_or_isBelow_iff h
    simp only [Bool.not_eq_true', Bool.or_eq_false_iff, decide_eq_false_iff_not, decide_eq_true_eq,
      ne_eq, ← hiff, not_or, Bool.not_eq_true]
  rw [removeTree, dropChild, parentName?_eq_none h, hkeep]

/-- With the tree of a root all names with this root go. -/
theorem mem_known_removeTree_of_isRootName (h : isRootName root) :
    name ∈ (table.removeTree root).known ↔ name ∈ table.known ∧ rootOf name ≠ root := by
  rw [mem_known_removeTree, eq_or_isBelow_iff h]

/-- The names of all that is inserted come in. -/
theorem mem_known_foldl_insert (children : List Variable) :
    name ∈ (children.foldl insert table).known ↔
      name ∈ table.known ∨ name ∈ children.map Variable.name := by
  induction children generalizing table with
  | nil => simp
  | cons child rest ih =>
    rw [List.foldl_cons, ih, mem_known_insert, List.map_cons, List.mem_cons, or_assoc]

/-- With the trees of some roots all names with these roots go. -/
theorem mem_known_foldl_removeTree {roots : List String} (h : ∀ root ∈ roots, isRootName root) :
    name ∈ (roots.foldl removeTree table).known ↔ name ∈ table.known ∧ rootOf name ∉ roots := by
  induction roots generalizing table with
  | nil => simp
  | cons root rest ih =>
    rw [List.foldl_cons, ih fun other hother ↦ h other (List.mem_cons_of_mem _ hother),
      mem_known_removeTree_of_isRootName (h root List.mem_cons_self), List.mem_cons, not_or,
      and_assoc]

/-- No name comes in when trees are removed. -/
theorem known_foldl_removeTree_subset (names : List String) (table : VariableTable) :
    (names.foldl removeTree table).known ⊆ table.known := by
  induction names generalizing table with
  | nil => exact fun _ ↦ id
  | cons name rest ih => exact fun other hother ↦ (mem_known_removeTree.mp (ih _ hother)).1

/-- Setting children brings up no other names than theirs. -/
theorem mem_known_of_setChildren {children : List Variable}
    (h : table.setChildren parent children = .ok table') (hname : name ∈ table'.known) :
    name ∈ table.known ∨ name ∈ children.map Variable.name := by
  unfold setChildren at h
  split at h
  · nomatch h
  · rw [← Except.ok.inj h, known_modify, mem_known_foldl_insert] at hname
    exact hname.imp_left (known_foldl_removeTree_subset _ _ ·)

/-- A table with children of an object stored beside the others. -/
def addChildren (table : VariableTable) (parent : String) (children : List Variable) :
    VariableTable :=
  (children.foldl insert table).modify parent fun v ↦
    { v with
      childCount := children.length % UInt32.size
      children := some (children.map Variable.name) }

/-- Children of an object that had none are added. -/
theorem setChildren_of_childless (children : List Variable) (hparent : table.get? parent = some v)
    (hchildless : v.children = none) :
    table.setChildren parent children = .ok (table.addChildren parent children) := by
  unfold setChildren addChildren
  rw [hparent]
  simp [hchildless]

/-- The names of the children that are added come in. -/
theorem mem_known_addChildren {children : List Variable} :
    name ∈ (table.addChildren parent children).known ↔
      name ∈ table.known ∨ name ∈ children.map Variable.name := by
  rw [addChildren, known_modify, mem_known_foldl_insert]

/-! ### Growth -/

/-- A table has grown by some roots: there was no object of these roots before, there is one of each
root now, and nothing else has changed. -/
structure Grown (start table : VariableTable) (live : List String) : Prop where
  roots : ∀ root ∈ live, isRootName root
  fresh : ∀ name ∈ start.known, rootOf name ∉ live
  added : ∃ added, table.objects.entries = start.objects.entries ++ added ∧
    (∀ entry ∈ added, rootOf entry.1 ∈ live) ∧ ∀ root ∈ live, root ∈ added.map Prod.fst

namespace Grown

theorem refl (table : VariableTable) : Grown table table [] :=
  ⟨by simp, fun _ _ ↦ List.not_mem_nil, [], (List.append_nil _).symm, by simp, by simp⟩

/-- The order of the roots does not matter. -/
theorem of_mem_iff (h : Grown start table live) (hiff : ∀ root, root ∈ live' ↔ root ∈ live) :
    Grown start table live' := by
  obtain ⟨added, hentries, hroots, hlive⟩ := h.added
  exact ⟨fun root hroot ↦ h.roots root ((hiff root).mp hroot),
    fun name hname hmem ↦ h.fresh name hname ((hiff _).mp hmem), added, hentries,
    fun entry hentry ↦ (hiff _).mpr (hroots entry hentry),
    fun root hroot ↦ hlive root ((hiff _).mp hroot)⟩

/-- Without live roots nothing has grown. -/
theorem eq_of_nil (h : Grown start table []) : table = start := by
  obtain ⟨added, hentries, hroots, -⟩ := h.added
  have hnil : added = [] := List.eq_nil_iff_forall_not_mem.mpr fun entry hentry ↦
    List.not_mem_nil (hroots entry hentry)
  rw [hnil, List.append_nil] at hentries
  exact congrArg (fun entries ↦ (⟨⟨entries⟩⟩ : VariableTable)) hentries

/-- The names that came in have live roots, and each live root is among them. -/
theorem known_eq (h : Grown start table live) : ∃ names, table.known = start.known ++ names ∧
    (∀ name ∈ names, rootOf name ∈ live) ∧ ∀ root ∈ live, root ∈ names := by
  obtain ⟨added, hentries, hroots, hlive⟩ := h.added
  refine ⟨added.map Prod.fst, ?_, ?_, hlive⟩
  · unfold known NamedTable.names
    rw [hentries, List.map_append]
  · intro name hname
    obtain ⟨entry, hentry, rfl⟩ := List.mem_map.mp hname
    exact hroots entry hentry

/-- What was there is still there. -/
theorem subset (h : Grown start table live) : start.known ⊆ table.known := by
  obtain ⟨names, hknown, -⟩ := h.known_eq
  rw [hknown]
  exact List.subset_append_left _ _

/-- The live roots are there. -/
theorem live_subset (h : Grown start table live) : live ⊆ table.known := by
  obtain ⟨names, hknown, -, hlive⟩ := h.known_eq
  rw [hknown]
  exact fun root hroot ↦ List.mem_append_right _ (hlive root hroot)

/-- The roots of a grown table are those that it had and those by which it has grown. -/
theorem rootOf_mem (h : Grown start table live) (hname : name ∈ table.known) :
    name ∈ start.known ∨ rootOf name ∈ live := by
  obtain ⟨names, hknown, hroots, -⟩ := h.known_eq
  rw [hknown] at hname
  exact (List.mem_append.mp hname).imp_right (hroots name)

/-- The new names without a dot are the roots by which a table has grown. -/
theorem mem_live_iff (h : Grown start table live) :
    name ∈ live ↔ isRootName name ∧ name ∈ table.known ∧ name ∉ start.known := by
  constructor
  · intro hname
    refine ⟨h.roots name hname, h.live_subset hname, fun hold ↦ h.fresh name hold ?_⟩
    rwa [rootOf_eq_self (h.roots name hname)]
  · rintro ⟨hroot, hname, hnew⟩
    have hmem := (h.rootOf_mem hname).resolve_left hnew
    rwa [rootOf_eq_self hroot] at hmem

/-- What has grown twice has grown by both. -/
theorem trans (h : Grown start table live) (h' : Grown table table' live') :
    Grown start table' (live ++ live') := by
  obtain ⟨added, hentries, hroots, hlive⟩ := h.added
  obtain ⟨added', hentries', hroots', hlive'⟩ := h'.added
  refine ⟨?_, ?_, added ++ added', ?_, ?_, ?_⟩
  · intro root hroot
    exact (List.mem_append.mp hroot).elim (h.roots root) (h'.roots root)
  · intro name hname hmem
    rcases List.mem_append.mp hmem with hleft | hright
    · exact h.fresh name hname hleft
    · exact h'.fresh name (h.subset hname) hright
  · rw [hentries', hentries, List.append_assoc]
  · intro entry hentry
    rcases List.mem_append.mp hentry with hleft | hright
    · exact List.mem_append_left _ (hroots entry hleft)
    · exact List.mem_append_right _ (hroots' entry hright)
  · intro root hroot
    rw [List.map_append]
    rcases List.mem_append.mp hroot with hleft | hright
    · exact List.mem_append_left _ (hlive root hleft)
    · exact List.mem_append_right _ (hlive' root hright)

/-- An object with a new root. -/
theorem insert_root (hroot : isRootName v.name)
    (hfresh : ∀ name ∈ table.known, rootOf name ≠ v.name) :
    Grown table (table.insert v) [v.name] := by
  have hnew : v.name ∉ table.known := fun hmem ↦ hfresh _ hmem (rootOf_eq_self hroot)
  refine ⟨by simpa using hroot, ?_, [(v.name, v)], ?_, ?_, ?_⟩
  · intro name hname hmem
    exact hfresh name hname (List.mem_singleton.mp hmem)
  · rw [VariableTable.insert, NamedTable.insert_of_notMem hnew]
  · simp [rootOf_eq_self hroot]
  · simp

/-- An object below one of the new roots. -/
theorem insert_below (h : Grown start table live) (hroot : rootOf v.name ∈ live) :
    Grown start (table.insert v) live := by
  obtain ⟨added, hentries, hroots, hlive⟩ := h.added
  have hnew : v.name ∉ start.objects.entries.map Prod.fst := fun hmem ↦ h.fresh _ hmem hroot
  have hnames := NamedTable.map_fst_put v.name v added
  refine ⟨h.roots, h.fresh, NamedTable.put v.name v added, ?_, ?_, ?_⟩
  · show NamedTable.put v.name v table.objects.entries = _
    rw [hentries, NamedTable.put_append hnew]
  · intro entry hentry
    have hmem := List.mem_map_of_mem (f := Prod.fst) hentry
    rw [hnames] at hmem
    have hold : ∀ name ∈ added.map Prod.fst, rootOf name ∈ live := by
      intro name hname
      obtain ⟨other, hother, rfl⟩ := List.mem_map.mp hname
      exact hroots other hother
    split_ifs at hmem with hthere
    · exact hold _ hmem
    · rcases List.mem_append.mp hmem with hleft | hright
      · exact hold _ hleft
      · exact (List.mem_singleton.mp hright) ▸ hroot
  · intro root hmem
    rw [hnames]
    split_ifs
    · exact hlive root hmem
    · exact List.mem_append_left _ (hlive root hmem)

/-- A change to an object below one of the new roots. -/
theorem modify (h : Grown start table live) (hroot : rootOf name ∈ live)
    (f : Variable → Variable) : Grown start (table.modify name f) live := by
  obtain ⟨added, hentries, hroots, hlive⟩ := h.added
  have hnames : ((⟨added⟩ : NamedTable Variable).modify name f).names = added.map Prod.fst :=
    NamedTable.names_modify ⟨added⟩ name f
  refine ⟨h.roots, h.fresh, ((⟨added⟩ : NamedTable Variable).modify name f).entries, ?_, ?_, ?_⟩
  · show table.objects.entries.map _ = _
    rw [hentries, List.map_append]
    refine congrArg (· ++ _) ?_
    conv_rhs => rw [← List.map_id start.objects.entries]
    refine List.map_congr_left fun entry hentry ↦ ?_
    have hne : entry.1 ≠ name := by
      intro heq
      exact h.fresh entry.1 (List.mem_map_of_mem hentry) (heq ▸ hroot)
    rw [if_neg hne, id]
  · intro entry hentry
    have hmem : entry.1 ∈ added.map Prod.fst := hnames ▸ List.mem_map_of_mem hentry
    obtain ⟨old, hold, heq⟩ := List.mem_map.mp hmem
    exact heq ▸ hroots old hold
  · intro root hmem
    show root ∈ ((⟨added⟩ : NamedTable Variable).modify name f).names
    rw [hnames]
    exact hlive root hmem

/-- Children of an object below one of the new roots. -/
theorem addChildren {children : List Variable} (h : Grown start table live)
    (hparent : rootOf parent ∈ live) (hchildren : ∀ child ∈ children, isBelow parent child.name) :
    Grown start (table.addChildren parent children) live := by
  have hfold : ∀ (children : List Variable) (table : VariableTable), Grown start table live →
      (∀ child ∈ children, isBelow parent child.name) →
        Grown start (children.foldl VariableTable.insert table) live := by
    intro children
    induction children with
    | nil => exact fun table h _ ↦ h
    | cons child rest ih =>
      intro table h hchildren
      have hroot : rootOf child.name ∈ live := by
        rwa [rootOf_of_isBelow (hchildren child List.mem_cons_self)]
      exact ih _ (h.insert_below hroot) fun other hother ↦
        hchildren other (List.mem_cons_of_mem _ hother)
  exact (hfold children table h hchildren).modify hparent _

/-- An object with a new root is removed again. -/
theorem removeTree (h : Grown start table live) (hroot : isRootName root)
    (hnew : ∀ name ∈ start.known, rootOf name ≠ root) :
    Grown start (table.removeTree root) (live.filter (· ≠ root)) := by
  obtain ⟨added, hentries, hroots, hlive⟩ := h.added
  refine ⟨?_, ?_, added.filter fun entry ↦ rootOf entry.1 ≠ root, ?_, ?_, ?_⟩
  · exact fun other hother ↦ h.roots other (List.mem_of_mem_filter hother)
  · intro name hname hmem
    exact h.fresh name hname (List.mem_of_mem_filter hmem)
  · rw [removeTree_of_isRootName table hroot]
    show table.objects.entries.filter _ = _
    rw [hentries, List.filter_append]
    refine congrArg (· ++ _) (List.filter_eq_self.mpr fun entry hentry ↦ ?_)
    exact decide_eq_true (hnew entry.1 (List.mem_map_of_mem hentry))
  · intro entry hentry
    rw [List.mem_filter] at hentry ⊢
    exact ⟨hroots entry hentry.1, hentry.2⟩
  · intro other hother
    obtain ⟨hother, hne⟩ := List.mem_filter.mp hother
    obtain ⟨entry, hentry, rfl⟩ := List.mem_map.mp (hlive other hother)
    refine List.mem_map_of_mem (List.mem_filter.mpr ⟨hentry, ?_⟩)
    rwa [rootOf_eq_self (h.roots _ hother)]

end Grown

/-! ### Orderly tables -/

/-- Every object stands under its own name, and its children have names of children. -/
def Orderly (table : VariableTable) : Prop :=
  ∀ entry ∈ table.objects.entries, entry.2.name = entry.1 ∧ entry.2.Dotted

namespace Orderly

/-- What is found under a name has this name, and its children are dotted. -/
theorem of_get? (h : Orderly table) (hget : table.get? name = some v) :
    v.name = name ∧ v.Dotted :=
  h (name, v) (NamedTable.mem_entries_of_get? hget)

/-- An object whose children are dotted may be inserted. -/
theorem insert (h : Orderly table) (hv : v.Dotted) : Orderly (table.insert v) := by
  intro entry hentry
  rcases NamedTable.mem_put hentry with rfl | hold
  · exact ⟨rfl, hv⟩
  · exact h entry hold

theorem modify {f : Variable → Variable} (h : Orderly table)
    (hf : ∀ v, v.name = name → v.Dotted → (f v).name = name ∧ (f v).Dotted) :
    Orderly (table.modify name f) := by
  intro entry hentry
  obtain ⟨old, hold, rfl⟩ := List.mem_map.mp hentry
  obtain ⟨hname, hdotted⟩ := h old hold
  split_ifs with heq
  · obtain ⟨hkept, hdotted⟩ := hf old.2 (hname.trans heq) hdotted
    exact ⟨hkept.trans heq.symm, hdotted⟩
  · exact ⟨hname, hdotted⟩

theorem addChildren {children : List Variable} (h : Orderly table)
    (hbare : ∀ child ∈ children, child.children = none)
    (hchildren : ∀ child ∈ children, isBelow parent child.name) :
    Orderly (table.addChildren parent children) := by
  have hfold : ∀ (children : List Variable) (table : VariableTable), Orderly table →
      (∀ child ∈ children, child.children = none) →
        Orderly (children.foldl VariableTable.insert table) := by
    intro children
    induction children with
    | nil => exact fun table h _ ↦ h
    | cons child rest ih =>
      intro table h hbare
      have hdotted : child.Dotted := by simp [Dotted, hbare child List.mem_cons_self]
      exact ih _ (h.insert hdotted) fun other hother ↦ hbare other (List.mem_cons_of_mem _ hother)
  refine (hfold children table h hbare).modify fun v hname _ ↦ ⟨hname, fun name hmem ↦ ?_⟩
  obtain ⟨child, hchild, rfl⟩ := List.mem_map.mp hmem
  exact not_isRootName_of_isBelow (hchildren child hchild)

theorem removeTree (h : Orderly table) (name : String) : Orderly (table.removeTree name) := by
  have hkept : ∀ keep, Orderly ⟨table.objects.filterNames keep⟩ :=
    fun keep entry hentry ↦ h entry (List.mem_of_mem_filter hentry)
  unfold VariableTable.removeTree dropChild
  split
  · exact hkept _
  · refine (hkept _).modify fun v hname hdotted ↦ ⟨hname, fun child hchild ↦ ?_⟩
    cases hchildren : v.children with
    | none => simp [hchildren] at hchild
    | some names =>
      simp only [hchildren, Option.map_some, Option.getD_some] at hchild
      exact hdotted child (by simpa [hchildren] using List.mem_of_mem_filter hchild)

theorem foldl_removeTree (h : Orderly table) (names : List String) :
    Orderly (names.foldl VariableTable.removeTree table) := by
  induction names generalizing table with
  | nil => exact h
  | cons name rest ih => exact ih (h.removeTree name)

end Orderly

/-! ### Change lists -/

/-- Whether an entry of a change list concerns only the value and the scope of an object. -/
def ValueOnly (change : Fields) : Prop :=
  change.text? "type_changed" ≠ some "true" ∧
    change.text? "new_num_children" >>= Numeral.word32? = none

/-- What an entry of a change list can do to a table: nothing, or change an object, and if it is
about more than value and scope, remove the children that the object had. -/
theorem applyUpdate_cases (table : VariableTable) (change : Fields) :
    (table.applyUpdate change).2 = table ∨
      ∃ name v v', table.get? name = some v ∧ v'.name = v.name ∧ v'.children = v.children ∧
        ((table.applyUpdate change).2 = table.modify name (fun _ ↦ v') ∨
          ¬ValueOnly change ∧ (table.applyUpdate change).2 =
            (v.children.getD []).foldl removeTree ((table.modify name fun _ ↦ v').modify name
              fun v ↦ { v with children := none })) := by
  unfold applyUpdate
  cases hname : change.text? "name" with
  | none => exact .inl rfl
  | some name =>
    cases hget : table.get? name with
    | none => exact .inl (by simp [hget])
    | some v =>
      refine .inr ⟨name, v, (changed v change).1, hget, rfl, rfl, ?_⟩
      have hsame : (changed v change).1.children = v.children := rfl
      by_cases hreset : (changed v change).2.2 = true
      · refine .inr ⟨?_, by simp only [hget, hreset, hsame, ↓reduceIte]⟩
        rintro ⟨htype, hcount⟩
        simp [changed, htype, hcount] at hreset
      · exact .inl (by simp only [hget, hreset, Bool.false_eq_true, ↓reduceIte])

/-- Every change that the debugger lists leaves the table orderly. -/
theorem Orderly.applyUpdate (h : Orderly table) (change : Fields) :
    Orderly (table.applyUpdate change).2 := by
  rcases applyUpdate_cases table change with heq | ⟨name, v, v', hget, hname, hchildren, hcases⟩
  · rwa [heq]
  · obtain ⟨hkey, hdotted⟩ := h.of_get? hget
    have hstored : Orderly (table.modify name fun _ ↦ v') := by
      refine h.modify fun _ _ _ ↦ ⟨hname.trans hkey, ?_⟩
      unfold Variable.Dotted
      rwa [hchildren]
    rcases hcases with heq | ⟨-, heq⟩
    · rwa [heq]
    · have hcleared : Orderly ((table.modify name fun _ ↦ v').modify name fun v ↦
          { v with children := none }) :=
        hstored.modify fun _ hw _ ↦ ⟨hw, by simp [Variable.Dotted]⟩
      rw [heq]
      exact hcleared.foldl_removeTree _

/-- An entry of a change list leaves the roots alone, whatever it says. -/
theorem mem_known_applyUpdate (h : Orderly table) (change : Fields) (hname : isRootName name) :
    name ∈ (table.applyUpdate change).2.known ↔ name ∈ table.known := by
  have hfold : ∀ (children : List String) (table : VariableTable),
      (∀ child ∈ children, ¬isRootName child) →
        (name ∈ (children.foldl removeTree table).known ↔ name ∈ table.known) := by
    intro children
    induction children with
    | nil => simp
    | cons child rest ih =>
      intro table hchildren
      have hkept : ¬(name = child ∨ isBelow child name) := by
        rintro (rfl | hbelow)
        · exact hchildren name List.mem_cons_self hname
        · exact not_isRootName_of_isBelow hbelow hname
      rw [List.foldl_cons, ih _ fun other hother ↦ hchildren other (List.mem_cons_of_mem _ hother),
        mem_known_removeTree, and_iff_left hkept]
  rcases applyUpdate_cases table change with heq | ⟨other, v, v', hget, -, -, heq | ⟨-, heq⟩⟩
  · rw [heq]
  · rw [heq, known_modify]
  · rw [heq, hfold _ _ (h.of_get? hget).2, known_modify, known_modify]

/-- No names come up by an entry of a change list. -/
theorem known_applyUpdate_subset (table : VariableTable) (change : Fields) :
    (table.applyUpdate change).2.known ⊆ table.known := by
  rcases applyUpdate_cases table change with heq | ⟨other, v, v', -, -, -, heq | ⟨-, heq⟩⟩
  · rw [heq]
    exact fun _ ↦ id
  · rw [heq, known_modify]
    exact fun _ ↦ id
  · rw [heq]
    intro name hname
    simpa using known_foldl_removeTree_subset _ _ hname

/-- A change of a value or a scope changes no name. -/
theorem known_applyUpdate_of_valueOnly (table : VariableTable) {change : Fields}
    (h : ValueOnly change) : (table.applyUpdate change).2.known = table.known := by
  rcases applyUpdate_cases table change with heq | ⟨other, v, v', -, -, -, heq | ⟨hnot, -⟩⟩
  · rw [heq]
  · rw [heq, known_modify]
  · exact absurd h hnot

end VariableTable

end DebugLink
