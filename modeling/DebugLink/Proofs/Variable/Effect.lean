import DebugLink.Proofs.Variable.Changes

/-!
The effect of one entry of a change list on a table in which the lists of children hold names of
children only (`Filial`); whether these are in the table does not matter. An entry that is about
more than value and scope removes the listed children of its object with everything below them, and
nothing else under another name changes (`get?_applyUpdate_of_ne`). An entry reports an object
exactly as it is stored afterwards, and without a report nothing has changed
(`applyUpdate_effect`).
-/

set_option autoImplicit false

namespace DebugLink.VariableTable

open Variable

variable {table : VariableTable} {change : Fields} {name parent key : String} {v : Variable}

/-- No name stands twice, every object stands under its own name, and the lists of children hold
names of children only. -/
structure Filial (table : VariableTable) : Prop where
  distinct : table.known.Nodup
  keyed : ∀ name v, table.get? name = some v → v.name = name
  kin : ∀ name v, table.get? name = some v → ∀ child ∈ v.children.getD [], IsChild name child

theorem Linked.filial (h : table.Linked) : table.Filial :=
  ⟨h.distinct, h.keyed, fun name v hget child hchild ↦ (h.listed name v hget child hchild).1⟩

/-! ### Other objects -/

/-- To remove children of an object is to remove them and what lies below them; other objects than
their parent are not touched. -/
theorem get?_foldl_removeTree_of_ne {children : List String}
    (hkin : ∀ child ∈ children, IsChild parent child) (hkey : key ≠ parent)
    (table : VariableTable) :
    (children.foldl removeTree table).get? key =
      if ∃ child ∈ children, key = child ∨ isBelow child key then none else table.get? key := by
  induction children generalizing table with
  | nil => simp
  | cons child rest ih =>
    obtain ⟨hchild, hrest⟩ := List.forall_mem_cons.mp hkin
    have hparent : parentName? child ≠ some key := by
      rw [parentName?_eq_some_iff.mpr hchild]
      exact fun heq ↦ hkey (Option.some.inj heq).symm
    rw [List.foldl_cons, ih hrest, get?_removeTree, if_neg hparent]
    simp only [List.exists_mem_cons_iff]
    by_cases hgone : key = child ∨ isBelow child key
    · rw [if_pos hgone, ite_self, if_pos (.inl hgone)]
    · simp only [hgone, false_or, ↓reduceIte]

/-- Whether the children of an object are out of date after an entry depends on the entry alone. -/
theorem changed_resets_iff : (changed v change).2.2 = true ↔ ¬ValueOnly change := by
  simp only [changed, ValueOnly, Bool.or_eq_true, decide_eq_true_eq, Option.isSome_iff_ne_none]
  tauto

/-- The value and the scope of an object after an entry are those that it gives, if it gives any. -/
theorem changed_reading :
    (changed v change).1.value = (change.text? "value" <|> v.value) ∧
      (changed v change).1.inScope =
        ((change.text? "in_scope").map (· = "true" : String → Bool)).getD v.inScope := by
  constructor
  · show (((change.text? "value").filter fun value ↦ v.value ≠ some value) <|> v.value) = _
    cases change.text? "value" with
    | none => rfl
    | some value => by_cases hsame : v.value = some value <;> simp [Option.filter_some, hsame]
  · show (((change.text? "in_scope").map (· = "true" : String → Bool)).filter
      fun inScope ↦ v.inScope ≠ inScope).getD v.inScope = _
    cases (change.text? "in_scope").map (· = "true" : String → Bool) with
    | none => rfl
    | some inScope => by_cases hsame : v.inScope = inScope <;> simp [Option.filter_some, hsame]

/-- What an entry does under other names than that of its object. -/
theorem get?_applyUpdate_of_ne (h : table.Filial) (hname : change.text? "name" = some name)
    (hget : table.get? name = some v) (hkey : key ≠ name) :
    (table.applyUpdate change).2.get? key =
      if (changed v change).2.2 = true ∧
        ∃ child ∈ v.children.getD [], key = child ∨ isBelow child key then none
      else table.get? key := by
  rw [applyUpdate_snd hname hget]
  by_cases hreset : (changed v change).2.2 = true
  · rw [if_pos hreset, get?_foldl_removeTree_of_ne (h.kin name v hget) hkey, get?_modify,
      if_neg hkey, get?_modify, if_neg hkey]
    simp only [hreset, true_and]
  · rw [if_neg hreset, get?_modify, if_neg hkey, if_neg fun hgone ↦ hreset hgone.1]

/-! ### Reports -/

/-- To store an object again where it stands changes nothing. -/
theorem modify_eq_self (hdistinct : table.known.Nodup) (hget : table.get? name = some v) :
    (table.modify name fun _ ↦ v) = table := by
  refine congrArg VariableTable.mk (NamedTable.ext_of_nodup ?_ ?_ fun other ↦ ?_)
  · rw [NamedTable.names_modify]
    exact hdistinct
  · exact NamedTable.names_modify table.objects name _
  · refine (get?_modify table name other _).trans ?_
    split_ifs with hother
    · rw [hother, hget, Option.map_some]
      exact hget.symm
    · rfl

/-- An entry that reports nothing leaves the table as it is. -/
theorem applyUpdate_of_unreported (hdistinct : table.known.Nodup)
    (hreport : (table.applyUpdate change).1 = none) : (table.applyUpdate change).2 = table := by
  by_cases hknown : ∃ key before, change.text? "name" = some key ∧ table.get? key = some before
  · obtain ⟨key, before, hname, hget⟩ := hknown
    rw [applyUpdate_fst hname hget] at hreport
    split at hreport
    · cases hreport
    · rename_i hunchanged
      obtain ⟨hsame, hreset⟩ := changed_of_unchanged (Bool.eq_false_iff.mpr hunchanged)
      rw [applyUpdate_snd hname hget, hreset, if_neg Bool.false_ne_true, hsame]
      exact modify_eq_self hdistinct hget
  · simp only [not_exists, not_and] at hknown
    rw [applyUpdate_of_unknown fun key hname ↦ Option.eq_none_iff_forall_ne_some.mpr fun before ↦
      hknown key before hname]

/-- An entry that reports nothing leaves the table as it is. One that reports an object reports the
one that it names, as this is stored from then on: with the value and the scope that the entry
gives, and with the same expressions as before. If the entry is about the type or the number of
children, the object lists no children any more, and those that it listed are gone with everything
below them; there is no other way for type and number to change. Nothing else is different, so
nothing but the object and what lies below it is. -/
theorem applyUpdate_effect (h : table.Filial) (change : Fields) :
    ((table.applyUpdate change).1 = none → (table.applyUpdate change).2 = table) ∧
    ∀ v, (table.applyUpdate change).1 = some v →
      change.text? "name" = some v.name ∧ (table.applyUpdate change).2.get? v.name = some v ∧
      ∃ before, table.get? v.name = some before ∧
        v.value = (change.text? "value" <|> before.value) ∧
        v.inScope =
          ((change.text? "in_scope").map (· = "true" : String → Bool)).getD before.inScope ∧
        v.expression = before.expression ∧ v.pathExpression = before.pathExpression ∧
        (ValueOnly change →
          v.type = before.type ∧ v.childCount = before.childCount ∧ v.children = before.children ∧
          ∀ key, key ≠ v.name → (table.applyUpdate change).2.get? key = table.get? key) ∧
        (¬ValueOnly change →
          v.children = none ∧
          ∀ key, key ≠ v.name → (table.applyUpdate change).2.get? key =
            if ∃ child ∈ before.children.getD [], key = child ∨ isBelow child key then none
            else table.get? key) ∧
        ∀ key, ¬(key = v.name ∨ isBelow v.name key) →
          (table.applyUpdate change).2.get? key = table.get? key := by
  refine ⟨applyUpdate_of_unreported h.distinct, fun v hreport ↦ ?_⟩
  by_cases hknown : ∃ name before, change.text? "name" = some name ∧ table.get? name = some before
  · obtain ⟨name, before, hname, hget⟩ := hknown
    have hstored := get?_applyUpdate_self hname hget (h.kin name before hget)
    have hv : v = { (changed before change).1 with
        children := if (changed before change).2.2 then none else before.children } := by
      rw [applyUpdate_fst hname hget, hstored, Option.getD_some] at hreport
      split at hreport
      · exact (Option.some.inj hreport).symm
      · cases hreport
    obtain rfl : v.name = name := by
      rw [hv]
      exact h.keyed name before hget
    refine ⟨hname, hstored.trans (congrArg some hv.symm), before, hget,
      (congrArg Variable.value hv).trans changed_reading.1,
      (congrArg Variable.inScope hv).trans changed_reading.2,
      (congrArg Variable.expression hv).trans rfl, (congrArg Variable.pathExpression hv).trans rfl,
      fun hvalue ↦ ?_, fun hmore ↦ ?_, fun key hkey ↦ ?_⟩
    · have hreset : ¬(changed before change).2.2 = true := fun hreset ↦
        changed_resets_iff.mp hreset hvalue
      have htype : (changed before change).1.type = before.type := by
        simp [changed, hvalue.1]
      have hcount : (changed before change).1.childCount = before.childCount := by
        simp [changed, hvalue.2]
      refine ⟨(congrArg Variable.type hv).trans htype,
        (congrArg Variable.childCount hv).trans hcount,
        (congrArg Variable.children hv).trans (if_neg hreset), fun key hkey ↦ ?_⟩
      rw [get?_applyUpdate_of_ne h hname hget hkey, if_neg fun hgone ↦ hreset hgone.1]
    · have hreset : (changed before change).2.2 = true := changed_resets_iff.mpr hmore
      refine ⟨(congrArg Variable.children hv).trans (if_pos hreset), fun key hkey ↦ ?_⟩
      rw [get?_applyUpdate_of_ne h hname hget hkey]
      simp only [hreset, true_and]
    · obtain ⟨hne, hbelow⟩ := not_or.mp hkey
      rw [get?_applyUpdate_of_ne h hname hget hne, if_neg]
      rintro ⟨-, child, hchild, hgone⟩
      exact hbelow (isBelow_of_goes_with (h.kin _ before hget child hchild) hgone)
  · simp only [not_exists, not_and] at hknown
    rw [applyUpdate_of_unknown fun name hname ↦ Option.eq_none_iff_forall_ne_some.mpr fun before ↦
      hknown name before hname] at hreport
    cases hreport

/-- A root with two children, of which one has a child, and another root. The entry is about the
number of the children of the first root. -/
theorem applyUpdate_effect_of_recounted :
    let change : Fields := ⟨[("name", .text "var1"), ("new_num_children", .text "1")]⟩
    nested.Filial ∧
      (nested.applyUpdate change).1 = some { bare "var1" with childCount := 1 } ∧
      (nested.applyUpdate change).2.get? "var1" = some { bare "var1" with childCount := 1 } ∧
      (nested.applyUpdate change).2.get? "var1.a.x" = none ∧
      (nested.applyUpdate change).2.get? "var10" = nested.get? "var10" := by
  intro change
  have hfilial := reachable_nested.linked.filial
  have hreport : (nested.applyUpdate change).1 = some { bare "var1" with childCount := 1 } := by
    decide +kernel
  obtain ⟨-, hreported⟩ := applyUpdate_effect hfilial change
  obtain ⟨-, hstored, before, hget, -, -, -, -, -, hmore, hothers⟩ := hreported _ hreport
  obtain rfl := Option.some.inj hget
  have hcount : ¬ValueOnly change := fun hvalue ↦ nomatch hvalue.2
  refine ⟨hfilial, hreport, hstored, ?_, hothers "var10" (by decide)⟩
  rw [(hmore hcount).2 "var1.a.x" (by decide)]
  decide

end DebugLink.VariableTable
