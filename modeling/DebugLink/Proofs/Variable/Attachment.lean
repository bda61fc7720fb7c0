import DebugLink.Proofs.Variable.Children
import Mathlib.Data.List.Induction

/-!
Which objects are listed by their parents. A table is attached (`VariableTable.Attached`) if every
object with a dotted name stands in the list of children of its parent. Storing a root, removing an
object and applying an entry of a change list keep a table attached. Listing children does not when
it reports an object again that lists children itself: the object is replaced by a new one that
lists none, and what stood below it is there still (`Change.Forgets`). Along a run the table is
attached exactly as long as there was no such listing (`VariableTable.attached_iff_not_forgets`).

The parent of an object is in the table in any case (`VariableTable.Closed`). A change of type or of
the number of children removes what goes with the listed children of an object, which is everything
below it if the table is attached.
-/

set_option autoImplicit false

namespace DebugLink

open Variable

/-! ### Names -/

namespace Variable

variable {parent parent' name ancestor : String}

/-- A child has a dot in its name, so it is no root. -/
theorem IsChild.not_isRootName (h : IsChild parent name) : ¬isRootName name := by
  obtain ⟨part, -, rfl⟩ := h
  rw [isRootName_iff]
  simp

/-- A name has at most one parent. -/
theorem IsChild.unique (h : IsChild parent name) (h' : IsChild parent' name) : parent = parent' :=
  Option.some.inj ((parentName?_eq_some_iff.mpr h).symm.trans (parentName?_eq_some_iff.mpr h'))

/-- A child lies below its parent. -/
theorem IsChild.isBelow (h : IsChild parent name) : isBelow parent name := by
  obtain ⟨part, -, hname⟩ := isChild_iff.mp h
  exact isBelow_iff.mpr ⟨part, hname⟩

/-- What goes with the parent of a name lies above that name. -/
theorem IsChild.isBelow_of_parent (h : IsChild parent name)
    (hparent : parent = ancestor ∨ Variable.isBelow ancestor parent) :
    Variable.isBelow ancestor name := by
  obtain ⟨part, -, hname⟩ := isChild_iff.mp h
  rcases hparent with rfl | hbelow
  · exact h.isBelow
  · obtain ⟨rest, hrest⟩ := isBelow_iff.mp hbelow
    exact isBelow_iff.mpr ⟨rest ++ '.' :: part, by simp [hname, hrest]⟩

/-- Siblings do not lie below each other, and neither do their children go with the other one. -/
theorem IsChild.not_goes_with_sibling {sibling child : String} (h : IsChild parent name)
    (hsibling : IsChild parent sibling) (hne : name ≠ sibling) (hchild : IsChild name child) :
    ¬(child = sibling ∨ Variable.isBelow sibling child) := by
  intro hgone
  rcases hchild.eq_or_isBelow hgone with rfl | hname
  · -- The child would have two parents, of which one lies below the other.
    have heq := hsibling.unique hchild
    subst heq
    exact h.not_eq_or_isBelow (.inl rfl)
  · rcases h.eq_or_isBelow hname with heq | hparent
    · exact hne heq
    · exact hsibling.not_eq_or_isBelow hparent

/-- What lies below an object has a parent, which is the object itself or lies below it too. -/
theorem exists_parent_of_isBelow (h : Variable.isBelow ancestor name) :
    ∃ parent, IsChild parent name ∧ (parent = ancestor ∨ Variable.isBelow ancestor parent) := by
  cases hparent : parentName? name with
  | none =>
    obtain ⟨rest, hrest⟩ := isBelow_iff.mp h
    have hdot : '.' ∈ name.toList.reverse := by simp [hrest]
    unfold parentName? at hparent
    split at hparent
    · rename_i hdrop
      exact absurd (List.dropWhile_eq_nil_iff.mp hdrop '.' hdot) (by simp)
    · nomatch hparent
  | some parent =>
    have hchild := parentName?_eq_some_iff.mp hparent
    refine ⟨parent, hchild, (hchild.eq_or_isBelow (.inr h)).resolve_left ?_⟩
    rintro rfl
    obtain ⟨rest, hrest⟩ := isBelow_iff.mp h
    simpa using congrArg List.length hrest

end Variable

namespace VariableTable

variable {table table' : VariableTable} {name parent child : String} {v : Variable}
  {children : List Variable} {entry : Fields}

/-! ### What is listed -/

/-- Whether an object lists a name among its children. -/
def Lists (table : VariableTable) (parent child : String) : Prop :=
  ∃ v, table.get? parent = some v ∧ child ∈ v.children.getD []

/-- Only objects of the table list children. -/
theorem Lists.mem_known (h : table.Lists parent child) : parent ∈ table.known := by
  obtain ⟨v, hget, -⟩ := h
  exact mem_known_of_get? hget

/-- In a linked table what an object lists are children of it, and they are in the table. -/
theorem Linked.isChild_of_lists (hlinked : table.Linked) (h : table.Lists parent child) :
    IsChild parent child ∧ child ∈ table.known := by
  obtain ⟨v, hget, hchild⟩ := h
  exact hlinked.listed parent v hget child hchild

/-- An object that lists nothing takes the place of another one. -/
theorem lists_insert (hbare : v.children = none) :
    (table.insert v).Lists parent child ↔ parent ≠ v.name ∧ table.Lists parent child := by
  unfold Lists
  rw [get?_insert]
  split_ifs with hname
  · simp [hname, hbare]
  · simp [hname]

/-- Storing objects that list nothing makes the objects of those names list nothing and leaves what
the others list. -/
theorem lists_foldl_insert (hbare : ∀ v ∈ children, v.children = none) :
    (children.foldl insert table).Lists parent child ↔
      parent ∉ children.map Variable.name ∧ table.Lists parent child := by
  induction children generalizing table with
  | nil => simp
  | cons v rest ih =>
    rw [List.foldl_cons, ih fun w hw ↦ hbare w (List.mem_cons_of_mem v hw),
      lists_insert (hbare v List.mem_cons_self), List.map_cons, List.mem_cons, not_or]
    tauto

/-- A change to one object changes no other list of children than its own. -/
theorem lists_modify {f : Variable → Variable} : (table.modify name f).Lists parent child ↔
    if parent = name then ∃ v, table.get? parent = some v ∧ child ∈ (f v).children.getD []
    else table.Lists parent child := by
  unfold Lists
  rw [get?_modify]
  split_ifs <;> simp [Option.map_eq_some_iff]

/-- A removal takes the lists of the objects that are removed, and the name of its object out of the
list of the parent. -/
theorem lists_removeTree : (table.removeTree name).Lists parent child ↔
    table.Lists parent child ∧ ¬(parent = name ∨ isBelow name parent) ∧
      ¬(IsChild parent name ∧ child = name) := by
  unfold Lists
  rw [get?_removeTree]
  by_cases hgone : parent = name ∨ isBelow name parent
  · simp [hgone]
  by_cases hparent : parentName? name = some parent
  · rw [if_neg hgone, if_pos hparent]
    have hchild := parentName?_eq_some_iff.mp hparent
    simp only [Option.map_eq_some_iff, hgone, hchild, not_false_eq_true, true_and]
    constructor
    · rintro ⟨_, ⟨v, hget, rfl⟩, hmem⟩
      cases hchildren : v.children with
      | none => simp [disown, hchildren] at hmem
      | some names =>
        simp only [disown, hchildren, Option.map_some, Option.getD_some, List.mem_filter,
          decide_eq_true_eq] at hmem
        exact ⟨⟨v, hget, by simpa [hchildren] using hmem.1⟩, hmem.2⟩
    · rintro ⟨⟨v, hget, hmem⟩, hne⟩
      refine ⟨_, ⟨v, hget, rfl⟩, ?_⟩
      cases hchildren : v.children with
      | none => simp [hchildren] at hmem
      | some names => simpa [disown, hchildren, hne] using hmem
  · have hchild : ¬IsChild parent name := fun h ↦ hparent (parentName?_eq_some_iff.mpr h)
    simp [hgone, hparent, hchild]

/-- After some trees are removed an object lists a child if it did before, is in none of the trees,
and the child is the root of none. -/
theorem lists_foldl_removeTree (names : List String) :
    (names.foldl removeTree table).Lists parent child ↔
      table.Lists parent child ∧ ∀ name ∈ names, ¬(parent = name ∨ isBelow name parent) ∧
        ¬(IsChild parent name ∧ child = name) := by
  induction names generalizing table with
  | nil => simp
  | cons name rest ih =>
    rw [List.foldl_cons, ih, lists_removeTree, List.forall_mem_cons, and_assoc]

/-- An object outlives the removal of some trees if it is in none of them. -/
theorem mem_known_foldl_removeTree_iff (names : List String) :
    name ∈ (names.foldl removeTree table).known ↔
      name ∈ table.known ∧ ∀ gone ∈ names, ¬(name = gone ∨ isBelow gone name) := by
  induction names generalizing table with
  | nil => simp
  | cons gone rest ih =>
    rw [List.foldl_cons, ih, mem_known_removeTree, List.forall_mem_cons, and_assoc]

/-! ### Listing children -/

/-- What a listing of children does. Children that were listed before and are not reported any more
are removed, each child that is reported is a new object that lists nothing, and the parent lists
what is reported. -/
structure Relisted (table table' : VariableTable) (parent : String) (reported stale : List String) :
    Prop where
  mem_parent : parent ∈ table.known
  mem_stale : ∀ gone, gone ∈ stale ↔ table.Lists parent gone ∧ gone ∉ reported
  mem_known : ∀ key, key ∈ table'.known ↔
    key ∈ reported ∨ key ∈ table.known ∧ ∀ gone ∈ stale, ¬(key = gone ∨ isBelow gone key)
  lists_of_ne : ∀ key child, key ≠ parent → (table'.Lists key child ↔
    key ∉ reported ∧ table.Lists key child ∧ ∀ gone ∈ stale,
      ¬(key = gone ∨ isBelow gone key) ∧ ¬(IsChild key gone ∧ child = gone))
  lists_parent : ∀ child, table'.Lists parent child ↔ parent ∈ table'.known ∧ child ∈ reported

/-- Listing children does what `Relisted` says, if the children that are reported list nothing
themselves. -/
theorem relisted_of_setChildren (hset : table.setChildren parent children = .ok table')
    (hbare : ∀ v ∈ children, v.children = none) :
    ∃ stale, table.Relisted table' parent (children.map Variable.name) stale := by
  unfold setChildren at hset
  split at hset
  · nomatch hset
  · rename_i v hget
    refine ⟨(v.children.getD []).filter fun name ↦ !(children.map Variable.name).contains name, ?_⟩
    rw [← Except.ok.inj hset]
    constructor
    case mem_parent => exact mem_known_of_get? hget
    case mem_stale =>
      intro gone
      simp [Lists, hget]
    case mem_known =>
      intro key
      rw [known_modify, mem_known_foldl_insert, mem_known_foldl_removeTree_iff, or_comm]
    case lists_of_ne =>
      intro key child hkey
      rw [lists_modify, if_neg hkey, lists_foldl_insert hbare, lists_foldl_removeTree]
    case lists_parent =>
      intro child
      rw [lists_modify, if_pos rfl, known_modify, ← contains_iff]
      simp only [Option.getD_some, exists_and_right]
      exact and_congr_left' Option.isSome_iff_exists.symm

/-- The parent does not go with the children that it listed. -/
theorem Relisted.mem_known_parent {reported stale : List String} (hlinked : table.Linked)
    (h : table.Relisted table' parent reported stale) : parent ∈ table'.known := by
  refine (h.mem_known parent).mpr (.inr ⟨h.mem_parent, fun gone hgone ↦ ?_⟩)
  exact (hlinked.isChild_of_lists ((h.mem_stale gone).mp hgone).1).1.not_eq_or_isBelow

/-! ### Change lists -/

/-- An entry that is about more than value and scope is reported, and removes what goes with the
children that the object listed. -/
theorem applyUpdate_of_not_valueOnly (hname : entry.text? "name" = some name)
    (hget : table.get? name = some v) (hentry : ¬ValueOnly entry) :
    (table.applyUpdate entry).1.isSome ∧ ∀ key, key ∈ (table.applyUpdate entry).2.known ↔
      key ∈ table.known ∧ ∀ child ∈ v.children.getD [], ¬(key = child ∨ isBelow child key) := by
  have hreset : (changed v entry).2.2 = true := by
    by_contra hnot
    refine hentry ⟨fun htype ↦ hnot ?_, Option.not_isSome_iff_eq_none.mp fun hcount ↦ hnot ?_⟩
    · simp [changed, htype]
    · have hsome : (entry.text? "new_num_children" >>= Numeral.word32?).isSome = true := hcount
      show (decide _ || (entry.text? "new_num_children" >>= Numeral.word32?).isSome) = true
      rw [hsome, Bool.or_true]
  have hchanged : (changed v entry).2.1 = true := by
    have hall : (changed v entry).2.1 =
      (((entry.text? "value").filter fun value ↦ v.value ≠ some value).isSome ||
        ((((entry.text? "in_scope").map (· = "true" : String → Bool)).filter
          fun inScope ↦ v.inScope ≠ inScope).isSome) || (changed v entry).2.2) := rfl
    rw [hall, hreset, Bool.or_true]
  have hchildren : (changed v entry).1.children = v.children := rfl
  unfold applyUpdate
  simp only [hname, hget, hreset, hchanged, hchildren, ↓reduceIte, Option.isSome_some, true_and]
  intro key
  rw [mem_known_foldl_removeTree_iff, known_modify, known_modify]

/-! ### Closed tables -/

/-- The parent of every object with a dotted name is in the table. -/
def Closed (table : VariableTable) : Prop :=
  ∀ name parent, name ∈ table.known → IsChild parent name → parent ∈ table.known

/-- A new root needs no parent. -/
theorem Closed.insert (h : table.Closed) (hroot : isRootName v.name) :
    (table.insert v).Closed := by
  intro name parent hname hchild
  rcases mem_known_insert.mp hname with hold | rfl
  · exact mem_known_insert.mpr (.inl (h name parent hold hchild))
  · exact absurd hroot hchild.not_isRootName

/-- Whatever is removed, what lies below it is removed with it. -/
theorem Closed.removal (h : table.Closed) (names : List String)
    (hknown : ∀ key, key ∈ table'.known ↔
      key ∈ table.known ∧ ∀ gone ∈ names, ¬(key = gone ∨ isBelow gone key)) : table'.Closed := by
  intro name parent hname hchild
  obtain ⟨hthere, hkept⟩ := (hknown name).mp hname
  exact (hknown parent).mpr ⟨h name parent hthere hchild, fun gone hgone hparent ↦
    hkept gone hgone (.inr (hchild.isBelow_of_parent hparent))⟩

/-- With an object everything below it goes, so no object is left without its parent. -/
theorem Closed.removeTree (h : table.Closed) (name : String) : (table.removeTree name).Closed :=
  h.removal [name] fun key ↦ by rw [List.forall_mem_singleton, mem_known_removeTree]

/-- A change entry removes whole trees and adds no object. -/
theorem Closed.applyUpdate (h : table.Closed) (entry : Fields) :
    (table.applyUpdate entry).2.Closed := by
  rcases applyUpdate_cases table entry with heq | ⟨name, v, v', -, -, -, heq | ⟨-, heq⟩⟩
  · rwa [heq]
  · intro key parent hkey hchild
    rw [heq, known_modify] at hkey ⊢
    exact h key parent hkey hchild
  · rw [heq]
    refine h.removal (v.children.getD []) fun key ↦ ?_
    rw [mem_known_foldl_removeTree_iff, known_modify, known_modify]

/-- The children that are reported have a parent that is known; those that are dropped take their
trees along. -/
theorem Closed.relisted {stale : List String} (h : table.Closed) (hlinked : table.Linked)
    (hkin : ∀ v ∈ children, IsChild parent v.name)
    (hrelisted : table.Relisted table' parent (children.map Variable.name) stale) :
    table'.Closed := by
  intro name other hname hchild
  rcases (hrelisted.mem_known name).mp hname with hreported | ⟨hold, hkept⟩
  · obtain ⟨v, hv, rfl⟩ := List.mem_map.mp hreported
    rw [hchild.unique (hkin v hv)]
    exact hrelisted.mem_known_parent hlinked
  · refine (hrelisted.mem_known other).mpr
      (.inr ⟨h name other hold hchild, fun gone hgone hother ↦ ?_⟩)
    exact hkept gone hgone (.inr (hchild.isBelow_of_parent hother))

/-! ### Attached tables -/

/-- Every object with a dotted name is listed by its parent. -/
def Attached (table : VariableTable) : Prop :=
  ∀ name parent, name ∈ table.known → IsChild parent name → table.Lists parent name

/-- An object that is listed by its parent has its parent in the table. -/
theorem Attached.closed (h : table.Attached) : table.Closed :=
  fun name parent hname hchild ↦ (h name parent hname hchild).mem_known

/-- In an attached table whatever lies below an object goes with one of the children that it
lists. -/
theorem Attached.exists_listed {key : String} (h : table.Attached) (hkey : key ∈ table.known)
    (hbelow : isBelow name key) :
    ∃ child, table.Lists name child ∧ (key = child ∨ isBelow child key) := by
  -- Induction on the way up from the object to the name above it.
  induction hlength : key.toList.length using Nat.strong_induction_on generalizing key with
  | _ length ih =>
    obtain ⟨parent, hchild, hparent⟩ := exists_parent_of_isBelow hbelow
    have hlisted := h key parent hkey hchild
    rcases hparent with rfl | hparent
    · exact ⟨key, hlisted, .inl rfl⟩
    · have hshorter : parent.toList.length < length := by
        obtain ⟨part, -, hname⟩ := isChild_iff.mp hchild
        rw [← hlength, hname, List.length_append, List.length_cons]
        omega
      obtain ⟨child, hfirst, hgoes⟩ := ih _ hshorter hlisted.mem_known hparent rfl
      exact ⟨child, hfirst, .inr (hchild.isBelow_of_parent hgoes)⟩

/-- A new root under a fresh name takes nobody's list away. -/
theorem Attached.insert (h : table.Attached) (hbare : v.children = none)
    (hroot : isRootName v.name) (hfresh : v.name ∉ table.known) : (table.insert v).Attached := by
  intro name parent hname hchild
  rcases mem_known_insert.mp hname with hold | rfl
  · have hlists := h name parent hold hchild
    have hne : parent ≠ v.name := fun heq ↦ hfresh (heq ▸ hlists.mem_known)
    exact (lists_insert hbare).mpr ⟨hne, hlists⟩
  · exact absurd hroot hchild.not_isRootName

/-- The lists of what is left lose only the removed name. -/
theorem Attached.removeTree (h : table.Attached) (gone : String) :
    (table.removeTree gone).Attached := by
  intro name parent hname hchild
  obtain ⟨hold, hkept⟩ := mem_known_removeTree.mp hname
  refine lists_removeTree.mpr ⟨h name parent hold hchild, fun hparent ↦ ?_, fun hsame ↦ ?_⟩
  · exact hkept (.inr (hchild.isBelow_of_parent hparent))
  · exact hkept (.inl hsame.2)

/-- A change entry that removes children removes the objects with them. -/
theorem Attached.applyUpdate (h : table.Attached) (entry : Fields) :
    (table.applyUpdate entry).2.Attached := by
  rcases applyUpdate_cases table entry with
    heq | ⟨name, v, v', hget, -, hchildren, heq | ⟨-, heq⟩⟩
  · rwa [heq]
  · intro key parent hkey hchild
    rw [heq, known_modify] at hkey
    rw [heq, lists_modify]
    obtain ⟨w, hw, hlisted⟩ := h key parent hkey hchild
    split_ifs with hparent
    · obtain rfl : v = w := Option.some.inj (hget.symm.trans (hparent ▸ hw))
      exact ⟨v, hw, hchildren ▸ hlisted⟩
    · exact ⟨w, hw, hlisted⟩
  · intro key parent hkey hchild
    rw [heq, mem_known_foldl_removeTree_iff, known_modify, known_modify] at hkey
    obtain ⟨hold, hkept⟩ := hkey
    obtain ⟨w, hw, hlisted⟩ := h key parent hold hchild
    -- What the object itself listed is removed, so another one lists what is left.
    have hparent : parent ≠ name := by
      rintro rfl
      obtain rfl : v = w := Option.some.inj (hget.symm.trans hw)
      exact hkept key hlisted (.inl rfl)
    rw [heq, lists_foldl_removeTree, lists_modify, if_neg hparent, lists_modify, if_neg hparent]
    exact ⟨⟨w, hw, hlisted⟩, fun gone hgone ↦ ⟨fun hother ↦ hkept gone hgone
      (.inr (hchild.isBelow_of_parent hother)), fun hsame ↦ hkept gone hgone (.inl hsame.2)⟩⟩

/-- What a reported object listed is still there when its children are forgotten. -/
theorem Relisted.not_attached {reported stale : List String} {kin : String}
    (h : table.Relisted table' parent reported stale) (hlinked : table.Linked)
    (hreported : name ∈ reported) (hkin : IsChild parent name) (hlists : table.Lists name kin) :
    ¬table'.Attached := by
  intro hattached
  obtain ⟨hchild, hknown⟩ := hlinked.isChild_of_lists hlists
  have hstays : kin ∈ table'.known := by
    refine (h.mem_known kin).mpr (.inr ⟨hknown, fun gone hgone ↦ ?_⟩)
    obtain ⟨hgone, hunreported⟩ := (h.mem_stale gone).mp hgone
    have hne : name ≠ gone := fun heq ↦ hunreported (heq ▸ hreported)
    exact hkin.not_goes_with_sibling (hlinked.isChild_of_lists hgone).1 hne hchild
  have hother : name ≠ parent := fun heq ↦ hkin.not_eq_or_isBelow (.inl heq.symm)
  exact ((h.lists_of_ne name kin hother).mp (hattached kin name hstays hchild)).1 hreported

/-- Attachment survives a listing as long as no child that is reported again had children listed of
its own. -/
theorem Attached.relisted {stale : List String} (h : table.Attached) (hlinked : table.Linked)
    (hkin : ∀ v ∈ children, IsChild parent v.name)
    (hkeeps : ∀ v ∈ children, ∀ child, ¬table.Lists v.name child)
    (hrelisted : table.Relisted table' parent (children.map Variable.name) stale) :
    table'.Attached := by
  intro name other hname hchild
  rcases (hrelisted.mem_known name).mp hname with hreported | ⟨hold, hkept⟩
  · obtain ⟨v, hv, rfl⟩ := List.mem_map.mp hreported
    rw [hchild.unique (hkin v hv)]
    exact (hrelisted.lists_parent _).mpr ⟨hrelisted.mem_known_parent hlinked, hreported⟩
  · have hlists := h name other hold hchild
    by_cases hparent : other = parent
    · subst hparent
      refine (hrelisted.lists_parent name).mpr ⟨hrelisted.mem_known_parent hlinked, ?_⟩
      by_contra hunreported
      exact hkept name ((hrelisted.mem_stale name).mpr ⟨hlists, hunreported⟩) (.inl rfl)
    · refine (hrelisted.lists_of_ne other name hparent).mpr ⟨fun hreported ↦ ?_, hlists,
        fun gone hgone ↦ ⟨fun hother ↦ ?_, fun hsame ↦ ?_⟩⟩
      · obtain ⟨v, hv, rfl⟩ := List.mem_map.mp hreported
        exact hkeeps v hv name hlists
      · exact hkept gone hgone (.inr (hchild.isBelow_of_parent hother))
      · exact hkept gone hgone (.inl hsame.2)

/-! ### Changes -/

/-- What is done to a table: an object is stored, children are listed, an entry of a change list is
applied, or an object is removed. -/
inductive Change
  | create (v : Variable)
  | list (parent : String) (children : List Variable)
  | update (entry : Fields)
  | remove (name : String)

namespace Change

/-- The table after a change. To list children of an object that is not known changes nothing. -/
def apply (table : VariableTable) : Change → VariableTable
  | create v => table.insert v
  | list parent children =>
    match table.setChildren parent children with
    | .ok table' => table'
    | .error _ => table
  | update entry => (table.applyUpdate entry).2
  | remove name => table.removeTree name

/-- Whether a change is one that the answers of a debugger lead to: a new object is a root with a
name that is not taken, and children are as they were reported, with names of children. -/
def Proper (table : VariableTable) : Change → Prop
  | create v =>
    (∃ expression fields, ofCreate expression fields = .ok v) ∧ isRootName v.name ∧
      v.name ∉ table.known
  | list parent children =>
    ∀ v ∈ children, (∃ fields, ofChild? fields = some v) ∧ IsChild parent v.name
  | _ => True

/-- Whether a change makes an object forget its children: it is reported again while it lists
some. -/
def Forgets (table : VariableTable) : Change → Prop
  | list _ children => ∃ v ∈ children, ∃ child, table.Lists v.name child
  | _ => False

end Change

variable {change : Change}

/-- A listing of children takes effect unless their parent is not known. -/
theorem Change.apply_list (table : VariableTable) (parent : String) (children : List Variable) :
    table.setChildren parent children = .ok ((list parent children).apply table) ∨
      parent ∉ table.known ∧ (list parent children).apply table = table := by
  simp only [Change.apply]
  cases hset : table.setChildren parent children with
  | ok table' => exact .inl rfl
  | error e =>
    refine .inr ⟨fun hknown ↦ ?_, rfl⟩
    obtain ⟨v, hget⟩ := Option.isSome_iff_exists.mp (contains_iff.mpr hknown)
    have hget' : table.get? parent = some v := hget
    simp [setChildren, hget'] at hset

/-- A listing that is proper and succeeds does what `Relisted` says. -/
theorem Change.Proper.relisted (hproper : (Change.list parent children).Proper table)
    (hset : table.setChildren parent children = .ok table') :
    ∃ stale, table.Relisted table' parent (children.map Variable.name) stale :=
  relisted_of_setChildren hset fun v hv ↦
    have ⟨_, hfields⟩ := (hproper v hv).1
    ofChild?_children hfields

/-- A proper change of a reachable table gives a reachable one. -/
theorem Reachable.apply (h : Reachable table) (hproper : change.Proper table) :
    Reachable (change.apply table) := by
  cases change with
  | create v =>
    obtain ⟨⟨expression, fields, hcreate⟩, hroot, -⟩ := hproper
    exact h.create hcreate hroot
  | list parent children =>
    rcases Change.apply_list table parent children with hset | ⟨-, heq⟩
    · exact h.list (fun v hv ↦ (hproper v hv).1) (fun v hv ↦ (hproper v hv).2) hset
    · rwa [heq]
  | update entry => exact h.update entry
  | remove name => exact h.remove name

/-- No change takes a parent away and leaves its child. -/
theorem Closed.apply (h : table.Closed) (hlinked : table.Linked)
    (hproper : change.Proper table) : (change.apply table).Closed := by
  cases change with
  | create v => exact h.insert hproper.2.1
  | list parent children =>
    rcases Change.apply_list table parent children with hset | ⟨-, heq⟩
    · obtain ⟨stale, hrelisted⟩ := hproper.relisted hset
      exact h.relisted hlinked (fun v hv ↦ (hproper v hv).2) hrelisted
    · rwa [heq]
  | update entry => exact h.applyUpdate entry
  | remove name => exact h.removeTree name

/-- From an attached table every change leads to an attached one, unless an object forgets its
children. -/
theorem Attached.apply_iff (h : table.Attached) (hlinked : table.Linked)
    (hproper : change.Proper table) :
    (change.apply table).Attached ↔ ¬change.Forgets table := by
  cases change with
  | create v =>
    obtain ⟨⟨_, _, hcreate⟩, hroot, hfresh⟩ := hproper
    exact iff_of_true (h.insert (ofCreate_eq_ok hcreate).2 hroot hfresh) id
  | list parent children =>
    rcases Change.apply_list table parent children with hset | ⟨hunknown, heq⟩
    · obtain ⟨stale, hrelisted⟩ := hproper.relisted hset
      constructor
      · rintro hattached ⟨v, hv, child, hlists⟩
        exact hrelisted.not_attached hlinked (List.mem_map_of_mem hv) (hproper v hv).2 hlists
          hattached
      · intro hkeeps
        exact h.relisted hlinked (fun v hv ↦ (hproper v hv).2)
          (fun v hv child hlists ↦ hkeeps ⟨v, hv, child, hlists⟩) hrelisted
    · -- No child of an unknown object is known, so none of them lists anything.
      rw [heq]
      refine iff_of_true h ?_
      rintro ⟨v, hv, child, hlists⟩
      exact hunknown (h.closed v.name parent hlists.mem_known (hproper v hv).2)
  | update entry => exact iff_of_true (h.applyUpdate entry) id
  | remove name => exact iff_of_true (h.removeTree name) id

/-! ### Runs -/

/-- The table after a run of changes. -/
def after (changes : List Change) : VariableTable :=
  changes.foldl (fun table change ↦ change.apply table) empty

/-- The last change of a run applies to what the others leave. -/
theorem after_append_singleton (changes : List Change) (change : Change) :
    after (changes ++ [change]) = change.apply (after changes) := by
  simp [after, List.foldl_append]

/-- Whether every change of a run is proper at its point. -/
def ProperRun (changes : List Change) : Prop :=
  ∀ before change, before ++ [change] <+: changes → change.Proper (after before)

variable {changes : List Change}

/-- A property of all steps of a run is one of the steps before the last and one of the last. -/
theorem forall_step_append_singleton {P : List Change → Change → Prop} (changes : List Change)
    (last : Change) :
    (∀ before change, before ++ [change] <+: changes ++ [last] → P before change) ↔
      (∀ before change, before ++ [change] <+: changes → P before change) ∧ P changes last := by
  constructor
  · intro h
    exact ⟨fun before change hbefore ↦ h before change
      (hbefore.trans (List.prefix_append changes [last])), h changes last List.prefix_rfl⟩
  · rintro ⟨hbefore, hlast⟩ before change hprefix
    rcases List.prefix_concat_iff.mp hprefix with heq | hearlier
    · obtain ⟨rfl, hsame⟩ := List.append_inj' heq rfl
      rwa [List.singleton_inj.mp hsame]
    · exact hbefore before change hearlier

/-- A prefix of a proper run is proper. -/
theorem ProperRun.of_prefix {before : List Change} (h : ProperRun changes)
    (hbefore : before <+: changes) : ProperRun before :=
  fun earlier change hearlier ↦ h earlier change (hearlier.trans hbefore)

/-- What holds of the empty table and is kept by proper changes holds after every proper run. -/
theorem ProperRun.induct {P : VariableTable → Prop} (h : ProperRun changes) (hempty : P empty)
    (hstep : ∀ table change, Reachable table → P table → Change.Proper table change →
      P (change.apply table)) : Reachable (after changes) ∧ P (after changes) := by
  induction changes using List.reverseRecOn with
  | nil => exact ⟨.empty, hempty⟩
  | append_singleton before change ih =>
    obtain ⟨hreachable, hbefore⟩ := ih (h.of_prefix (List.prefix_append before [change]))
    have hproper := h before change List.prefix_rfl
    rw [after_append_singleton]
    exact ⟨hreachable.apply hproper, hstep _ change hreachable hbefore hproper⟩

/-- Proper runs reach reachable tables. -/
theorem ProperRun.reachable (h : ProperRun changes) : Reachable (after changes) :=
  (h.induct (P := fun _ ↦ True) trivial fun _ _ _ _ _ ↦ trivial).1

/-- No proper run leaves an object without its parent. -/
theorem closed_after (h : ProperRun changes) : (after changes).Closed :=
  (h.induct (fun _ _ hname ↦ absurd hname List.not_mem_nil)
    fun _ _ hreachable hclosed hproper ↦ hclosed.apply hreachable.linked hproper).2

/-- Nothing has to be listed in the empty table. -/
theorem attached_empty : empty.Attached := fun _ _ hname ↦ absurd hname List.not_mem_nil

/-- Along a run every object with a dotted name is listed by its parent, at every point, if and only
if no listing of the run reported an object again that listed children. The parent is in the table
in any case. A change of type or of the number of children is reported and removes what goes with
the children that the object listed, so that nothing below the object is left if the table is
attached. -/
theorem attached_iff_not_forgets (h : ProperRun changes) :
    ((∀ before, before <+: changes → (after before).Attached) ↔
      ∀ before change, before ++ [change] <+: changes → ¬change.Forgets (after before)) ∧
    (∀ name parent, (after changes).contains name → IsChild parent name →
      (after changes).contains parent) ∧
    ∀ entry name v, entry.text? "name" = some name → (after changes).get? name = some v →
      ¬ValueOnly entry →
        ((after changes).applyUpdate entry).1.isSome ∧
        ∀ key, isBelow name key →
          (((after changes).applyUpdate entry).2.contains key ↔ (after changes).contains key ∧
            ∀ child ∈ v.children.getD [], ¬(key = child ∨ isBelow child key)) ∧
          ((after changes).Attached → ¬((after changes).applyUpdate entry).2.contains key) := by
  refine ⟨⟨fun hattached before change hbefore ↦ ?_, fun hkeeps before ↦ ?_⟩,
    fun name parent hname hchild ↦ ?_, fun entry name v hname hget hentry ↦ ?_⟩
  · have hearlier := (List.prefix_append before [change]).trans hbefore
    have hlinked := (h.of_prefix hearlier).reachable.linked
    have hnext := hattached _ hbefore
    rw [after_append_singleton] at hnext
    exact ((hattached before hearlier).apply_iff hlinked (h before change hbefore)).mp hnext
  · -- Induction on the part of the run that has passed, at its end.
    induction before using List.reverseRecOn with
    | nil => exact fun _ ↦ attached_empty
    | append_singleton before change ih =>
      intro hbefore
      have hearlier := (List.prefix_append before [change]).trans hbefore
      have hlinked := (h.of_prefix hearlier).reachable.linked
      rw [after_append_singleton]
      exact ((ih hearlier).apply_iff hlinked (h before change hbefore)).mpr
        (hkeeps before change hbefore)
  · exact contains_iff.mpr (closed_after h name parent (contains_iff.mp hname) hchild)
  · obtain ⟨hreported, hknown⟩ := applyUpdate_of_not_valueOnly hname hget hentry
    refine ⟨hreported, fun key hbelow ↦ ?_⟩
    simp only [contains_iff, hknown, true_and]
    rintro hattached ⟨hkey, hkept⟩
    obtain ⟨child, ⟨w, hw, hlisted⟩, hgoes⟩ := hattached.exists_listed hkey hbelow
    obtain rfl : v = w := Option.some.inj (hget.symm.trans hw)
    exact hkept child hlisted hgoes

/-! ### An object that is listed again -/

/-- A root with a child and a child of that. -/
def threeLevels : List Change :=
  [.create (bare "var1"), .list "var1" [bare "var1.a"], .list "var1.a" [bare "var1.a.x"]]

/-- The children of the root are listed once more. -/
def relisting : Change :=
  .list "var1" [bare "var1.a"]

/-- The child of the root takes another type, which has no children. -/
def retyping : Fields :=
  ⟨[("name", .text "var1.a"), ("in_scope", .text "true"), ("type_changed", .text "true"),
    ("new_type", .text "int"), ("new_num_children", .text "0")]⟩

/-- Creating a root and listing twice is a proper run. -/
theorem properRun_threeLevels : ProperRun threeLevels := by
  have hchild : ∀ {parent name : String} (part : String), '.' ∉ part.toList →
      name = parent ++ "." ++ part →
      ∀ v ∈ [bare name], (∃ fields, ofChild? fields = some v) ∧ IsChild parent v.name := by
    rintro parent name part hpart rfl
    exact List.forall_mem_singleton.mpr
      ⟨⟨⟨[("name", .text (parent ++ "." ++ part))]⟩, rfl⟩, part, hpart, rfl⟩
  refine (forall_step_append_singleton [_, _] _).mpr
    ⟨(forall_step_append_singleton [_] _).mpr
      ⟨(forall_step_append_singleton [] _).mpr ⟨fun before change hbefore ↦ ?_, ?_⟩, ?_⟩, ?_⟩
  · exact absurd (List.prefix_nil.mp hbefore) (by simp)
  · exact ⟨⟨"var1", ⟨[("name", .text "var1")]⟩, rfl⟩, rfl, List.not_mem_nil⟩
  · exact hchild "a" (by decide) rfl
  · exact hchild "x" (by decide) rfl

/-- As long as no children are listed twice, a change of type leaves nothing below its object. -/
theorem attached_iff_not_forgets_of_threeLevels :
    ProperRun threeLevels ∧ (∀ before, before <+: threeLevels → (after before).Attached) ∧
      (after threeLevels).contains "var1.a.x" ∧
      ¬((after threeLevels).applyUpdate retyping).2.contains "var1.a.x" := by
  have hproper := properRun_threeLevels
  obtain ⟨hiff, -, hupdate⟩ := attached_iff_not_forgets hproper
  have hattached : ∀ before, before <+: threeLevels → (after before).Attached := by
    refine hiff.mpr ((forall_step_append_singleton [_, _] _).mpr
      ⟨(forall_step_append_singleton [_] _).mpr
        ⟨(forall_step_append_singleton [] _).mpr ⟨fun before change hbefore ↦ ?_, id⟩, ?_⟩, ?_⟩)
    · exact absurd (List.prefix_nil.mp hbefore) (by simp)
    all_goals
      rintro ⟨v, hv, child, w, hw, -⟩
      obtain rfl := List.mem_singleton.mp hv
      nomatch (show none = some w from hw)
  obtain ⟨-, hbelow⟩ := hupdate retyping "var1.a" _ rfl rfl fun hvalue ↦ hvalue.1 rfl
  exact ⟨hproper, hattached, rfl, (hbelow "var1.a.x" (by decide)).2 (hattached _ List.prefix_rfl)⟩

/-- Not every run leaves a table attached, and not every change of type removes what is below its
object. When the children of the root are listed twice, the child of the child is in the table
without being listed, and a change of type leaves it there. -/
theorem not_always_attached :
    (¬ ∀ changes, ProperRun changes → (after changes).Attached) ∧
    ¬ ∀ changes, ProperRun changes → ∀ entry name v, entry.text? "name" = some name →
      (after changes).get? name = some v → ¬ValueOnly entry →
        ∀ key, isBelow name key → ¬((after changes).applyUpdate entry).2.contains key := by
  have hproper : ProperRun (threeLevels ++ [relisting]) :=
    (forall_step_append_singleton _ _).mpr ⟨properRun_threeLevels, List.forall_mem_singleton.mpr
      ⟨⟨⟨[("name", .text "var1.a")]⟩, rfl⟩, "a", by decide, rfl⟩⟩
  refine ⟨fun h ↦ ?_, fun h ↦ ?_⟩
  · have hkin : IsChild "var1.a" "var1.a.x" := ⟨"x", by decide, rfl⟩
    obtain ⟨v, hget, hlisted⟩ := h _ hproper "var1.a.x" "var1.a" (contains_iff.mp rfl) hkin
    obtain rfl : bare "var1.a" = v := Option.some.inj hget
    nomatch hlisted
  · exact h _ hproper retyping "var1.a" _ rfl rfl (fun hvalue ↦ hvalue.1 rfl) "var1.a.x"
      (by decide) rfl

end VariableTable

end DebugLink
