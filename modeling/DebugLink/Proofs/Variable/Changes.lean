import DebugLink.Proofs.Variable.Attachment
import DebugLink.Session.Objects

/-!
Change lists. The entries of a change list are applied one after another, and each reports the
object that it changes, if any (`reported?`); so what applying a change list yields is what its
entries report, each in the table that the entries before it leave (`applyChanges_eq`). A report is
of the object as it is stored right after the entry (`get?_of_reported?`). What can be read of an
object is its value and its scope (`reading?`), and by an entry only the readings of the object that
it reports and of those below it change (`reading?_afterAll`).
-/

set_option autoImplicit false

namespace DebugLink

/-- What goes with a child lies below its parent. -/
theorem Variable.isBelow_of_goes_with {parent child name : String} (h : IsChild parent child)
    (hname : name = child ∨ isBelow child name) : isBelow parent name := by
  rcases hname with rfl | hbelow
  · exact h.isBelow
  · obtain ⟨part, -, hchild⟩ := isChild_iff.mp h
    obtain ⟨rest, hrest⟩ := isBelow_iff.mp hbelow
    exact isBelow_iff.mpr ⟨part ++ '.' :: rest, by simp [hrest, hchild]⟩

namespace VariableTable

open Variable

variable {table : VariableTable} {changes : List Fields} {change : Fields} {name : String}
  {v : Variable}

/-- A table after the entries of a change list. -/
def afterAll (table : VariableTable) (changes : List Fields) : VariableTable :=
  changes.foldl (fun table change ↦ (table.applyUpdate change).2) table

/-- The object that the entry at some place of a change list reports, if it is there and changes
something. -/
def reported? (table : VariableTable) (changes : List Fields) (place : Nat) : Option Variable :=
  changes[place]?.bind fun change ↦ ((table.afterAll (changes.take place)).applyUpdate change).1

/-- What applying a change list yields is what its entries report, in their order. -/
theorem applyChanges_eq (changes : List Fields) (table : VariableTable) :
    Session.applyChanges changes table =
      ((List.range changes.length).filterMap (table.reported? changes),
        table.afterAll changes) := by
  induction changes generalizing table with
  | nil => rfl
  | cons change rest ih =>
    have hfirst : table.reported? (change :: rest) 0 = (table.applyUpdate change).1 := rfl
    have hothers :
        (List.range rest.length).filterMap (table.reported? (change :: rest) ∘ Nat.succ) =
          (List.range rest.length).filterMap ((table.applyUpdate change).2.reported? rest) := rfl
    unfold Session.applyChanges
    dsimp only
    rw [ih, List.length_cons, List.range_succ_eq_map, List.filterMap_cons, hfirst,
      List.filterMap_map, hothers]
    cases (table.applyUpdate change).1 <;> rfl

theorem Linked.afterAll (h : table.Linked) (changes : List Fields) :
    (table.afterAll changes).Linked :=
  List.foldlRecOn changes _ h fun _ hbefore change _ ↦ hbefore.applyUpdate change

/-! ### Reports -/

/-- An entry about an object that is not there has no effect. -/
theorem applyUpdate_of_unknown
    (h : ∀ name, change.text? "name" = some name → table.get? name = none) :
    table.applyUpdate change = (none, table) := by
  unfold applyUpdate
  cases hname : change.text? "name" with
  | none => rfl
  | some name => simp only [h name hname]

/-- What an entry reports about an object that is there. -/
theorem applyUpdate_fst (hname : change.text? "name" = some name)
    (hget : table.get? name = some v) :
    (table.applyUpdate change).1 = if (changed v change).2.1 then
      some (((table.applyUpdate change).2.get? name).getD (changed v change).1) else none := by
  simp only [applyUpdate, hname, hget]

/-- What an entry does to the table where its object is there. -/
theorem applyUpdate_snd (hname : change.text? "name" = some name)
    (hget : table.get? name = some v) :
    (table.applyUpdate change).2 = if (changed v change).2.2 then
      (v.children.getD []).foldl removeTree
        ((table.modify name fun _ ↦ (changed v change).1).modify name
          fun v ↦ { v with children := none })
      else table.modify name fun _ ↦ (changed v change).1 := by
  have hsame : (changed v change).1.children = v.children := rfl
  simp only [applyUpdate, hname, hget, hsame]

/-- What is stored after an entry that reports an object is this object. -/
theorem get?_of_applyUpdate (h : table.Linked) (hreport : (table.applyUpdate change).1 = some v) :
    change.text? "name" = some v.name ∧ (table.applyUpdate change).2.get? v.name = some v := by
  by_cases hknown : ∃ name before, change.text? "name" = some name ∧ table.get? name = some before
  · obtain ⟨name, before, hname, hget⟩ := hknown
    have hstored := h.get?_applyUpdate hname hget
    rw [applyUpdate_fst hname hget] at hreport
    split at hreport
    · obtain rfl : ((table.applyUpdate change).2.get? name).getD (changed before change).1 = v :=
        Option.some.inj hreport
      have hkey : (changed before change).1.name = name := h.keyed name before hget
      rw [hstored, Option.getD_some]
      exact ⟨hname.trans (congrArg some hkey.symm), hkey ▸ hstored⟩
    · nomatch hreport
  · simp only [not_exists, not_and] at hknown
    rw [applyUpdate_of_unknown fun name hname ↦ Option.eq_none_iff_forall_ne_some.mpr fun before ↦
      hknown name before hname] at hreport
    nomatch hreport

/-- What an entry of a change list reports is the object that it names, as it is stored right
after the entry. -/
theorem get?_of_reported? (h : table.Linked) {place : Nat}
    (hreport : table.reported? changes place = some v) :
    (∃ change, changes[place]? = some change ∧ change.text? "name" = some v.name) ∧
      (table.afterAll (changes.take (place + 1))).get? v.name = some v := by
  obtain ⟨change, hchange, hreport⟩ := Option.bind_eq_some_iff.mp hreport
  obtain ⟨hname, hget⟩ := get?_of_applyUpdate (h.afterAll _) hreport
  refine ⟨⟨change, hchange, hname⟩, ?_⟩
  rw [List.take_add_one, hchange, afterAll, List.foldl_append]
  exact hget

/-! ### Readings -/

/-- What decoding reads of an object: its value and whether it is in scope. -/
def reading? (table : VariableTable) (name : String) : Option (Option String × Bool) :=
  (table.get? name).map fun v ↦ (v.value, v.inScope)

/-- To change nothing about value and scope is to leave what can be read. -/
theorem reading?_modify_of_eq {f : Variable → Variable}
    (hf : ∀ v, table.get? name = some v → (f v).value = v.value ∧ (f v).inScope = v.inScope)
    (other : String) : (table.modify name f).reading? other = table.reading? other := by
  unfold reading?
  rw [get?_modify]
  split_ifs with hother
  · subst hother
    cases hget : table.get? other with
    | none => rfl
    | some v =>
      obtain ⟨hvalue, hscope⟩ := hf v hget
      simp [hvalue, hscope]
  · rfl

theorem reading?_modify_of_ne (table : VariableTable) (f : Variable → Variable) {other : String}
    (h : other ≠ name) : (table.modify name f).reading? other = table.reading? other := by
  rw [reading?, get?_modify, if_neg h, reading?]

theorem reading?_removeTree (table : VariableTable) (name key : String) :
    (table.removeTree name).reading? key =
      if key = name ∨ isBelow name key then none else table.reading? key := by
  unfold reading?
  rw [get?_removeTree]
  split_ifs
  · rfl
  · rw [Option.map_map]
    rfl
  · rfl

/-- Objects below none of the names stay as they were when these are removed. -/
theorem reading?_foldl_removeTree {key : String} {names : List String}
    (h : ∀ name ∈ names, ¬(key = name ∨ isBelow name key)) (table : VariableTable) :
    (names.foldl removeTree table).reading? key = table.reading? key := by
  induction names generalizing table with
  | nil => rfl
  | cons name rest ih =>
    rw [List.foldl_cons, ih fun other hother ↦ h other (List.mem_cons_of_mem _ hother),
      reading?_removeTree, if_neg (h name List.mem_cons_self)]

/-- An object of which nothing changed is as it was, and its children are up to date. -/
theorem changed_of_unchanged (h : (changed v change).2.1 = false) :
    (changed v change).1 = v ∧ (changed v change).2.2 = false := by
  simp only [changed, Bool.or_eq_false_iff, Option.isSome_eq_false_iff, Option.isNone_iff_eq_none,
    decide_eq_false_iff_not] at h ⊢
  obtain ⟨⟨hvalue, hscope⟩, htype, hcount⟩ := h
  rw [hvalue, hscope, hcount, if_neg htype]
  exact ⟨rfl, htype, rfl⟩

/-- An entry that reports nothing leaves what can be read. -/
theorem reading?_of_unreported (hreport : (table.applyUpdate change).1 = none) (name : String) :
    (table.applyUpdate change).2.reading? name = table.reading? name := by
  by_cases hknown : ∃ key before, change.text? "name" = some key ∧ table.get? key = some before
  · obtain ⟨key, before, hname, hget⟩ := hknown
    rw [applyUpdate_fst hname hget] at hreport
    split at hreport
    · nomatch hreport
    · rename_i hunchanged
      obtain ⟨hsame, hreset⟩ := changed_of_unchanged (Bool.eq_false_iff.mpr hunchanged)
      rw [applyUpdate_snd hname hget, hreset, if_neg Bool.false_ne_true]
      refine reading?_modify_of_eq (fun v hv ↦ ?_) name
      rw [hsame, Option.some.inj (hget.symm.trans hv)]
      exact ⟨rfl, rfl⟩
  · simp only [not_exists, not_and] at hknown
    rw [applyUpdate_of_unknown fun key hname ↦ Option.eq_none_iff_forall_ne_some.mpr fun before ↦
      hknown key before hname]

/-- An entry that reports an object leaves what can be read of all others but those below it. -/
theorem reading?_of_not_goes_with (h : table.Linked)
    (hreport : (table.applyUpdate change).1 = some v)
    (hother : ¬(name = v.name ∨ isBelow v.name name)) :
    (table.applyUpdate change).2.reading? name = table.reading? name := by
  obtain ⟨hname, hstored⟩ := get?_of_applyUpdate h hreport
  obtain ⟨hne, hbelow⟩ := not_or.mp hother
  cases hget : table.get? v.name with
  | none =>
    rw [applyUpdate_of_unknown fun key hkey ↦ Option.some.inj (hname.symm.trans hkey) ▸ hget]
  | some before =>
    have hkept : ∀ child ∈ before.children.getD [], ¬(name = child ∨ isBelow child name) :=
      fun child hchild hgone ↦
        hbelow (isBelow_of_goes_with (h.listed v.name before hget child hchild).1 hgone)
    rw [applyUpdate_snd hname hget]
    split_ifs
    · rw [reading?_foldl_removeTree hkept, reading?_modify_of_ne _ _ hne,
        reading?_modify_of_ne _ _ hne]
    · exact reading?_modify_of_ne _ _ hne

/-- A change list leaves what can be read of all objects but those that its entries report and those
below them. -/
theorem reading?_afterAll (h : table.Linked)
    (hothers : ∀ v ∈ (Session.applyChanges changes table).1,
      ¬(name = v.name ∨ isBelow v.name name)) :
    (table.afterAll changes).reading? name = table.reading? name := by
  induction changes generalizing table with
  | nil => rfl
  | cons change rest ih =>
    rw [Session.applyChanges] at hothers
    refine (ih (h.applyUpdate change) fun v hv ↦ hothers v (List.mem_append_right _ hv)).trans ?_
    cases hreport : (table.applyUpdate change).1 with
    | none => exact reading?_of_unreported hreport name
    | some v =>
      exact reading?_of_not_goes_with h hreport
        (hothers v (List.mem_append_left _ (by rw [hreport]; exact List.mem_singleton_self v)))

end VariableTable

end DebugLink
