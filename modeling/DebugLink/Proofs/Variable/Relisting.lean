import DebugLink.Proofs.Variable.Effect

/-!
Listing the children of an object again. A listing removes the children that are not reported any
more (`Variable.lost`), stores those that are, and writes their names down with the object
(`setChildren_eq`). Under each other name there is then the last report of it
(`get?_listed_of_mem`), nothing if it went with a lost child, and otherwise what was there before
(`get?_listed_of_notMem`). The same listing once more finds nothing lost and stores what is stored
(`setChildren_idempotent`).
-/

set_option autoImplicit false

namespace DebugLink

/-- The children that an object lists and that are not among those reported. -/
def Variable.lost (v : Variable) (children : List Variable) : List String :=
  (v.children.getD []).filter fun name ↦ !(children.map Variable.name).contains name

/-- An object with the names of the children that are reported for it. -/
def Variable.listing (v : Variable) (children : List Variable) : Variable :=
  { v with
    childCount := children.length % UInt32.size
    children := some (children.map Variable.name) }

namespace VariableTable

open Variable

variable {table : VariableTable} {parent key : String} {v : Variable} {children : List Variable}

/-- A child is lost if it was listed and is not reported. -/
theorem mem_lost_iff {child : String} :
    child ∈ v.lost children ↔ child ∈ v.children.getD [] ∧ child ∉ children.map Variable.name := by
  simp [lost]

/-- Nothing is lost by the listing that an object was given last. -/
theorem lost_listing (v : Variable) (children : List Variable) :
    (v.listing children).lost children = [] := by
  refine List.filter_eq_nil_iff.mpr fun name hname ↦ ?_
  have hreported : name ∈ children.map Variable.name := hname
  simpa using hreported

/-! ### Storing children -/

/-- Of several objects that are stored under one name the last one stays. -/
theorem get?_foldl_insert (children : List Variable) (table : VariableTable) (key : String) :
    (children.foldl insert table).get? key =
      ((children.reverse.find? fun child ↦ child.name = key) <|> table.get? key) := by
  induction children using List.reverseRecOn with
  | nil => rfl
  | append_singleton children child ih =>
    rw [List.foldl_append, List.foldl_cons, List.foldl_nil, get?_insert, ih, List.reverse_append,
      List.reverse_singleton, List.singleton_append, List.find?_cons]
    by_cases hname : child.name = key
    · simp [hname]
    · simp [hname, Ne.symm hname]

theorem nodup_known_foldl_insert (h : table.known.Nodup) (children : List Variable) :
    (children.foldl insert table).known.Nodup :=
  List.foldlRecOn children insert h fun _ hbefore child _ ↦
    NamedTable.nodup_names_insert hbefore child.name child

/-- Objects that are there are stored where they stand. -/
theorem known_foldl_insert_of_mem (h : ∀ child ∈ children, child.name ∈ table.known) :
    (children.foldl insert table).known = table.known := by
  induction children generalizing table with
  | nil => rfl
  | cons child rest ih =>
    obtain ⟨hchild, hrest⟩ := List.forall_mem_cons.mp h
    have hsame : (table.insert child).known = table.known := by
      rw [known_insert, if_pos hchild]
    rw [List.foldl_cons, ih fun other hother ↦ hsame ▸ hrest other hother, hsame]

theorem get?_addChildren_self (hnew : parent ∉ children.map Variable.name) :
    (table.addChildren parent children).get? parent =
      (table.get? parent).map (·.listing children) := by
  rw [addChildren, get?_modify, if_pos rfl, get?_foldl_insert_of_notMem hnew]
  rfl

theorem get?_addChildren_of_ne (hkey : key ≠ parent) :
    (table.addChildren parent children).get? key =
      ((children.reverse.find? fun child ↦ child.name = key) <|> table.get? key) := by
  rw [addChildren, get?_modify, if_neg hkey, get?_foldl_insert]

/-- To store the same children a second time changes nothing. -/
theorem addChildren_addChildren (hdistinct : table.known.Nodup)
    (hnew : parent ∉ children.map Variable.name) :
    (table.addChildren parent children).addChildren parent children =
      table.addChildren parent children := by
  have hthere : ∀ child ∈ children, child.name ∈ (table.addChildren parent children).known :=
    fun child hchild ↦ mem_known_addChildren.mpr (.inr (List.mem_map_of_mem hchild))
  have hknown : ((table.addChildren parent children).addChildren parent children).known =
      (table.addChildren parent children).known :=
    (known_modify _ _ _).trans (known_foldl_insert_of_mem hthere)
  have hdistinct' : (table.addChildren parent children).known.Nodup := by
    rw [addChildren, known_modify]
    exact nodup_known_foldl_insert hdistinct children
  rw [← hknown] at hdistinct'
  refine congrArg VariableTable.mk (NamedTable.ext_of_nodup hdistinct' hknown fun key ↦ ?_)
  show ((table.addChildren parent children).addChildren parent children).get? key =
    (table.addChildren parent children).get? key
  by_cases hkey : key = parent
  · subst hkey
    rw [get?_addChildren_self hnew, get?_addChildren_self hnew, Option.map_map]
    rfl
  · rw [get?_addChildren_of_ne hkey, get?_addChildren_of_ne hkey]
    cases children.reverse.find? fun child ↦ child.name = key <;> rfl

/-! ### Removing children -/

theorem nodup_known_foldl_removeTree (h : table.known.Nodup) (names : List String) :
    (names.foldl removeTree table).known.Nodup :=
  List.foldlRecOn (motive := fun table ↦ table.known.Nodup) names removeTree h
    fun table hbefore name _ ↦ known_removeTree table name ▸ hbefore.filter _

/-- A parent of which children are removed stays, except for the list of its children. -/
theorem get?_foldl_removeTree_self {names : List String} (hget : table.get? parent = some v)
    (hkin : ∀ child ∈ names, IsChild parent child) :
    ∃ listed, (names.foldl removeTree table).get? parent = some { v with children := listed } := by
  induction names generalizing table v with
  | nil => exact ⟨v.children, hget⟩
  | cons child rest ih =>
    obtain ⟨hchild, hrest⟩ := List.forall_mem_cons.mp hkin
    have hafter : (table.removeTree child).get? parent = some (v.disown child) := by
      rw [get?_removeTree, if_neg hchild.not_eq_or_isBelow,
        if_pos (parentName?_eq_some_iff.mpr hchild), hget, Option.map_some]
    obtain ⟨listed, hlisted⟩ := ih hafter hrest
    exact ⟨listed, hlisted⟩

/-! ### Listing children -/

/-- A table after the children of an object were listed: what is lost is gone, and what is reported
is stored. -/
def listed (table : VariableTable) (parent : String) (v : Variable) (children : List Variable) :
    VariableTable :=
  ((v.lost children).foldl removeTree table).addChildren parent children

theorem setChildren_eq (hget : table.get? parent = some v) (children : List Variable) :
    table.setChildren parent children = .ok (table.listed parent v children) := by
  unfold setChildren listed addChildren
  simp only [hget, List.length_map]
  rfl

section Listed

variable (hold : ∀ child ∈ v.children.getD [], IsChild parent child)
  (hkin : ∀ child ∈ children, IsChild parent child.name)

include hold in
theorem isChild_of_mem_lost {child : String} (h : child ∈ v.lost children) :
    IsChild parent child :=
  hold child (mem_lost_iff.mp h).1

include hkin in
theorem parent_notMem_names : parent ∉ children.map Variable.name := by
  intro hmem
  obtain ⟨child, hchild, heq⟩ := List.mem_map.mp hmem
  exact (hkin child hchild).not_eq_or_isBelow (.inl heq.symm)

include hold hkin in
/-- The object lists what was reported. -/
theorem get?_listed_self (hget : table.get? parent = some v) :
    (table.listed parent v children).get? parent = some (v.listing children) := by
  obtain ⟨others, hkept⟩ :=
    get?_foldl_removeTree_self hget fun child hchild ↦ isChild_of_mem_lost hold hchild
  rw [listed, get?_addChildren_self (parent_notMem_names hkin), hkept, Option.map_some]
  rfl

include hkin in
/-- A child is stored as it was reported last. -/
theorem get?_listed_of_mem {child : Variable} (h : child ∈ children) :
    (table.listed parent v children).get? child.name =
      children.reverse.find? fun other ↦ other.name = child.name := by
  have hfound : (children.reverse.find? fun other ↦ other.name = child.name).isSome :=
    List.find?_isSome.mpr ⟨child, List.mem_reverse.mpr h, by simp⟩
  have hne : child.name ≠ parent := fun heq ↦
    parent_notMem_names hkin (heq ▸ List.mem_map_of_mem h)
  obtain ⟨last, hlast⟩ := Option.isSome_iff_exists.mp hfound
  rw [listed, get?_addChildren_of_ne hne, hlast]
  rfl

include hold in
/-- What is not reported goes with a lost child, or stays. -/
theorem get?_listed_of_notMem (hkey : key ∉ parent :: children.map Variable.name) :
    (table.listed parent v children).get? key =
      if ∃ child ∈ v.lost children, key = child ∨ isBelow child key then none
      else table.get? key := by
  rw [listed, get?_addChildren_of_notMem hkey, get?_foldl_removeTree_of_ne
    (fun child hchild ↦ isChild_of_mem_lost hold hchild) (List.ne_of_not_mem_cons hkey)]

include hold hkin in
/-- No report is about the object, or about something that goes with a lost child. -/
theorem notMem_of_goes_with_lost {child : String} (hlost : child ∈ v.lost children)
    (hgone : key = child ∨ isBelow child key) : key ∉ parent :: children.map Variable.name := by
  have hparent := (isChild_of_mem_lost hold hlost).not_eq_or_isBelow
  rw [List.mem_cons, not_or]
  refine ⟨fun heq ↦ hparent (heq ▸ hgone), fun hmem ↦ ?_⟩
  obtain ⟨reported, hreported, rfl⟩ := List.mem_map.mp hmem
  rcases (hkin reported hreported).eq_or_isBelow hgone with heq | hgone
  · exact (mem_lost_iff.mp hlost).2 (heq ▸ hmem)
  · exact hparent hgone

include hold hkin in
/-- Whatever is neither the object nor below it stays. -/
theorem get?_listed_of_outside (hkey : ¬(key = parent ∨ isBelow parent key)) :
    (table.listed parent v children).get? key = table.get? key := by
  obtain ⟨hne, hbelow⟩ := not_or.mp hkey
  rw [get?_listed_of_notMem hold, if_neg]
  · rintro ⟨child, hlost, hgone⟩
    exact hbelow (isBelow_of_goes_with (isChild_of_mem_lost hold hlost) hgone)
  · refine List.not_mem_cons_of_ne_of_not_mem hne fun hmem ↦ ?_
    obtain ⟨child, hchild, rfl⟩ := List.mem_map.mp hmem
    exact hbelow (isBelow_of_goes_with (hkin child hchild) (.inl rfl))

include hold hkin in
/-- The second time nothing is lost, and what is stored is there. -/
theorem setChildren_listed (hdistinct : table.known.Nodup) (hget : table.get? parent = some v) :
    (table.listed parent v children).setChildren parent children =
      .ok (table.listed parent v children) := by
  have hremoved := nodup_known_foldl_removeTree hdistinct (v.lost children)
  rw [setChildren_eq (get?_listed_self hold hkin hget)]
  unfold listed
  rw [lost_listing, List.foldl_nil, addChildren_addChildren hremoved (parent_notMem_names hkin)]

end Listed

/-- Listing the children of an object once more changes nothing. After the first time the object
lists exactly what was reported, in this order and with repetitions, and counts it in 32 bits; each
child is stored as it was reported last; the children that were listed before and are not reported
are gone with everything below them; and everything else is as it was, in particular whatever is
neither the object nor below it. -/
theorem setChildren_idempotent (hdistinct : table.known.Nodup)
    (hlists : ∀ name w, table.get? name = some w → ∀ child ∈ w.children.getD [], IsChild name child)
    (hget : table.get? parent = some v) (hkin : ∀ child ∈ children, IsChild parent child.name) :
    ∃ after, table.setChildren parent children = .ok after ∧
      after.setChildren parent children = .ok after ∧
      after.get? parent = some { v with
        childCount := children.length % UInt32.size
        children := some (children.map Variable.name) } ∧
      (∀ child ∈ children, after.get? child.name =
        children.reverse.find? fun other ↦ other.name = child.name) ∧
      (∀ child ∈ v.children.getD [], child ∉ children.map Variable.name →
        ∀ key, key = child ∨ isBelow child key → after.get? key = none) ∧
      (∀ key, key ∉ parent :: children.map Variable.name →
        (∀ child ∈ v.children.getD [], key = child ∨ isBelow child key →
          child ∈ children.map Variable.name) → after.get? key = table.get? key) ∧
      ∀ key, ¬(key = parent ∨ isBelow parent key) → after.get? key = table.get? key := by
  have hold : ∀ child ∈ v.children.getD [], IsChild parent child := hlists parent v hget
  refine ⟨table.listed parent v children, setChildren_eq hget children,
    setChildren_listed hold hkin hdistinct hget, get?_listed_self hold hkin hget,
    fun child hchild ↦ get?_listed_of_mem hkin hchild, fun child hlisted hunreported key hgone ↦ ?_,
    fun key hkey hstays ↦ ?_, fun key hkey ↦ get?_listed_of_outside hold hkin hkey⟩
  · have hlost : child ∈ v.lost children := mem_lost_iff.mpr ⟨hlisted, hunreported⟩
    rw [get?_listed_of_notMem hold (notMem_of_goes_with_lost hold hkin hlost hgone),
      if_pos ⟨child, hlost, hgone⟩]
  · rw [get?_listed_of_notMem hold hkey, if_neg]
    rintro ⟨child, hlost, hgone⟩
    obtain ⟨hlisted, hunreported⟩ := mem_lost_iff.mp hlost
    exact hunreported (hstays child hlisted hgone)

/-- A child is lost with the child that it has, one is reported for the first time, and one is
reported twice. -/
theorem setChildren_idempotent_of_nested :
    let reported := [bare "var1.b", bare "var1.c", { bare "var1.b" with value := some "7" }]
    nested.known.Nodup ∧ (∀ child ∈ reported, IsChild "var1" child.name) ∧
      ∃ after, nested.setChildren "var1" reported = .ok after ∧
        after.setChildren "var1" reported = .ok after ∧
        after.get? "var1" = some { bare "var1" with
          childCount := 3
          children := some ["var1.b", "var1.c", "var1.b"] } ∧
        after.get? "var1.b" = some { bare "var1.b" with value := some "7" } ∧
        after.get? "var1.a.x" = none ∧ after.get? "var10" = nested.get? "var10" := by
  intro reported
  have hfilial := reachable_nested.linked.filial
  have hkin : ∀ child ∈ reported, IsChild "var1" child.name :=
    List.forall_mem_cons.mpr ⟨⟨"b", by decide, rfl⟩, List.forall_mem_cons.mpr
      ⟨⟨"c", by decide, rfl⟩, List.forall_mem_singleton.mpr ⟨"b", by decide, rfl⟩⟩⟩
  obtain ⟨after, hset, hagain, hself, hstored, hgone, -, houtside⟩ :=
    setChildren_idempotent hfilial.distinct hfilial.kin (v := { bare "var1" with
      childCount := 2
      children := some ["var1.a", "var1.b"] }) rfl hkin
  refine ⟨hfilial.distinct, hkin, after, hset, hagain, hself, ?_, ?_, ?_⟩
  · exact hstored _ List.mem_cons_self
  · exact hgone "var1.a" (by decide) (by decide) "var1.a.x" (by decide)
  · exact houtside "var10" (by decide)

end VariableTable

end DebugLink
