import DebugLink.Proofs.Variable.Changes
import DebugLink.Proofs.Watch.Roots
import DebugLink.Watch.Decode

/-!
What a watch reads, and what it could miss. Decoding reads the values and the scopes of the objects
of a watch and nothing else (`Watch.decode_congr`). An object can go without being reported itself,
when one above it gets another type. In a watch that was built each object is a root or a child of a
root that the watch reads too (`Watch.Kin`), so it reads whatever is above one of its objects
(`Watch.Kin.mem_vars_of_goes_with`), and a change list that reports none of its objects leaves its
value as it is (`Watch.decode_afterAll`).
-/

set_option autoImplicit false

namespace DebugLink

open Variable

variable {table table' : VariableTable}

/-! ### What decoding reads -/

namespace VariableTable

theorem value?_congr {name : String} (h : table.reading? name = table'.reading? name) :
    table.value? name = table'.value? name := by
  have hvalue : ∀ table : VariableTable,
      table.value? name = (table.reading? name).bind Prod.fst := by
    intro table
    unfold value? reading?
    cases table.get? name <;> rfl
  rw [hvalue, hvalue, h]

theorem countOf_congr {name : String} (h : table.value? name = table'.value? name) :
    table.countOf name = table'.countOf name := by
  unfold countOf
  rw [h]

end VariableTable

namespace Watch

theorem decodeAll_eq_map (table : VariableTable) (elements : List Watch) :
    decodeAll table elements = elements.map (decode table) := by
  induction elements with
  | nil => simp [decodeAll]
  | cons element rest ih => simp [decodeAll, ih]

theorem decodeNodes_eq_map (table : VariableTable) (nodes : List MapNode) :
    decodeNodes table nodes =
      nodes.map fun node ↦ (decode table node.key, decode table node.value) := by
  induction nodes with
  | nil => simp [decodeNodes]
  | cons node rest ih =>
    obtain ⟨address, key, value⟩ := node
    simp [decodeNodes, ih, MapNode.key, MapNode.value]

/-- What a decoder makes of a value depends on its own objects and on its members. -/
theorem decodeWith_congr {decoder : Decoder}
    (hown : ∀ name ∈ decoder.ownVars, table.value? name = table'.value? name)
    (hmembers : ∀ m ∈ decoder.members, decode table m = decode table' m) (value : Option String) :
    decodeWith table value decoder = decodeWith table' value decoder := by
  cases decoder with
  | int | char | cString | pointer | raw => simp only [decodeWith]
  | str chars =>
    simp only [decodeWith]
    rw [hown chars List.mem_cons_self]
  | pair first second =>
    simp only [decodeWith]
    rw [hmembers first (by simp [Decoder.members]), hmembers second (by simp [Decoder.members])]
  | vector length array elements =>
    have helements : elements.map (decode table) = elements.map (decode table') :=
      List.map_congr_left hmembers
    simp only [decodeWith, decodeAll_eq_map]
    rw [VariableTable.countOf_congr (hown length List.mem_cons_self), helements]
  | map count links nodes =>
    simp only [decodeWith, decodeNodes_eq_map]
    refine congrArg Native.map (List.map_congr_left fun node hnode ↦ ?_)
    have hmember : ∀ w ∈ [node.key, node.value], decode table w = decode table' w :=
      fun w hw ↦ hmembers w (List.mem_flatMap.mpr ⟨node, hnode, hw⟩)
    rw [hmember node.key (by simp), hmember node.value (by simp)]

/-- The value of a watch depends on the values and the scopes of its objects only. -/
theorem decode_congr : ∀ w : Watch,
    (∀ name ∈ w.vars, table.reading? name = table'.reading? name) →
      w.decode table = w.decode table' := by
  rintro ⟨var, expression, decoder⟩ h
  have hmembers : ∀ m ∈ decoder.members, m.decode table = m.decode table' := fun m hm ↦
    decode_congr m fun name hname ↦ h name (mem_vars_iff.mpr (.inr (.inr ⟨m, hm, hname⟩)))
  have hown : ∀ name ∈ decoder.ownVars, table.value? name = table'.value? name := fun name hname ↦
    VariableTable.value?_congr (h name (mem_vars_iff.mpr (.inr (.inl hname))))
  have hvar : table.reading? var = table'.reading? var := h var (mem_vars_iff.mpr (.inl rfl))
  have hdecode : ∀ table : VariableTable, decode table ⟨var, expression, decoder⟩ =
      match table.reading? var with
      | none => .unavailable
      | some (value, inScope) =>
        if inScope then decodeWith table value decoder else .unavailable := by
    intro table
    unfold decode VariableTable.reading?
    cases table.get? var <;> rfl
  rw [hdecode, hdecode, hvar]
  cases table'.reading? var with
  | none => rfl
  | some reading => simp only [decodeWith_congr hown hmembers]
termination_by w => sizeOf w
decreasing_by
  have := sizeOf_lt_of_mem_members hm
  simp only [mk.sizeOf_spec]
  omega

/-- A watch on an object that is in scope decodes its value. -/
theorem decode_of_reading? {name printed : String}
    (h : table.reading? name = some (some printed, true)) (expression : String)
    (decoder : Decoder) :
    decode table ⟨name, expression, decoder⟩ = decodeWith table (some printed) decoder := by
  obtain ⟨v, hv, hreading⟩ := Option.map_eq_some_iff.mp h
  obtain ⟨hvalue, hscope⟩ := Prod.mk.inj hreading
  unfold decode
  rw [hv]
  dsimp only
  rw [hscope, if_pos rfl, hvalue]

theorem ownStructure_subset (decoder : Decoder) : decoder.ownStructure ⊆ decoder.ownVars := by
  cases decoder with
  | vector length array elements => exact List.cons_subset_cons _ (List.nil_subset _)
  | map count links nodes => exact List.Subset.refl _
  | _ => exact List.nil_subset _

/-- A watch reads the objects on which its structure depends. -/
theorem structuralVars_subset (w : Watch) : w.structuralVars ⊆ w.vars := by
  obtain ⟨var, expression, decoder⟩ := w
  intro name hname
  rw [structuralVars, List.mem_append] at hname
  rcases hname with hown | hmember
  · exact mem_vars_iff.mpr (.inr (.inl (ownStructure_subset decoder hown)))
  · obtain ⟨⟨m, hm⟩, -, hname⟩ := List.mem_flatMap.mp hmember
    exact mem_vars_iff.mpr (.inr (.inr ⟨m, hm, structuralVars_subset m hname⟩))
termination_by sizeOf w
decreasing_by
  have := sizeOf_lt_of_mem_members hm
  simp only [mk.sizeOf_spec]
  omega

/-! ### Kinship -/

/-- Every object that a watch reads is its own, a root, or a child of a root that it reads. -/
def Kin (w : Watch) : Prop :=
  ∀ name ∈ w.vars, name = w.var ∨ isRootName name ∨
    ∃ parent ∈ w.vars, isRootName parent ∧ IsChild parent name

end Watch

/-- The objects of a decoder are roots, and its members are for roots or for children of these. -/
structure Decoder.Kin (decoder : Decoder) : Prop where
  own : ∀ name ∈ decoder.ownVars, isRootName name
  members : ∀ m ∈ decoder.members,
    m.Kin ∧ (isRootName m.var ∨ ∃ parent ∈ decoder.ownVars, IsChild parent m.var)

namespace Decoder

variable {decoder : Decoder}

theorem Kin.plain (hown : decoder.ownVars = []) (hmembers : decoder.members = []) :
    decoder.Kin :=
  ⟨by simp [hown], by simp [hmembers]⟩

theorem Kin.watch (h : decoder.Kin) (var expression : String) :
    (Watch.mk var expression decoder).Kin := by
  have hownRead : ∀ {name}, name ∈ decoder.ownVars →
      name ∈ (Watch.mk var expression decoder).vars :=
    fun hname ↦ Watch.mem_vars_iff.mpr (.inr (.inl hname))
  have hmemberRead : ∀ {m name}, m ∈ decoder.members → name ∈ m.vars →
      name ∈ (Watch.mk var expression decoder).vars :=
    fun hm hname ↦ Watch.mem_vars_iff.mpr (.inr (.inr ⟨_, hm, hname⟩))
  intro name hname
  rcases Watch.mem_vars_iff.mp hname with hself | hown | ⟨m, hm, hread⟩
  · exact .inl hself
  · exact .inr (.inl (h.own name hown))
  · obtain ⟨hkin, hvar⟩ := h.members m hm
    refine .inr ?_
    rcases hkin name hread with rfl | hroot | ⟨parent, hparent, hroot, hchild⟩
    · exact hvar.imp_right fun ⟨parent, hparent, hchild⟩ ↦
        ⟨parent, hownRead hparent, h.own parent hparent, hchild⟩
    · exact .inl hroot
    · exact .inr ⟨parent, hmemberRead hm hparent, hroot, hchild⟩

end Decoder

namespace Watch

variable {w : Watch}

/-- A watch for a root reads whatever is above one of its objects. -/
theorem Kin.mem_vars_of_goes_with (h : w.Kin) (hvar : isRootName w.var) {name ancestor : String}
    (hname : name ∈ w.vars) (habove : name = ancestor ∨ isBelow ancestor name) :
    ancestor ∈ w.vars := by
  have hroot : isRootName name → ancestor ∈ w.vars := fun hroot ↦ by
    rcases habove with rfl | hbelow
    · exact hname
    · exact absurd hroot (not_isRootName_of_isBelow hbelow)
  rcases h name hname with rfl | hself | ⟨parent, hparent, hparentRoot, hchild⟩
  · exact hroot hvar
  · exact hroot hself
  · rcases hchild.eq_or_isBelow habove with rfl | rfl | hbelow
    · exact hname
    · exact hparent
    · exact absurd hparentRoot (not_isRootName_of_isBelow hbelow)

/-- A change list none of whose reports is of an object that a watch reads leaves its value as it
is, also where objects are removed that are not reported. -/
theorem decode_afterAll (h : w.Kin) (hvar : isRootName w.var) (hlinked : table.Linked)
    {changes : List Fields}
    (hothers : ∀ v ∈ (Session.applyChanges changes table).1, v.name ∉ w.vars) :
    w.decode (table.afterAll changes) = w.decode table :=
  w.decode_congr fun _ hname ↦ VariableTable.reading?_afterAll hlinked fun v hv habove ↦
    hothers v hv (h.mem_vars_of_goes_with hvar hname habove)

end Watch

end DebugLink
