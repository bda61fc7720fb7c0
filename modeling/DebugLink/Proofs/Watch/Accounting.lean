import DebugLink.Proofs.Table.Numbered
import DebugLink.Proofs.Watch.Kinship

/-!
The accounts of watches. What a watch reads, what was created for it and what its structure depends
on are three recursions over the same nested data. They agree at every depth: a watch reads its own
object, its derived roots, and the objects of the vector elements that occur in it, which are
children and therefore no roots (`Watch.mem_vars_iff_roots_or_elements`), and its structure depends
on objects that it reads. So in a registry the watches that a change restructures are some of those
that it affects, in the same order (`WatchRegistry.vars_accounted`).
-/

set_option autoImplicit false

namespace DebugLink

namespace Watch

/-! ### Elements of vectors -/

/-- Whether a watch is an element of a vector that occurs in another watch, at any depth. -/
inductive HasElement : Watch → Watch → Prop
  | here {var expression length : String} {array : Option String} {elements : List Watch}
    {element : Watch} :
    element ∈ elements → HasElement ⟨var, expression, .vector length array elements⟩ element
  | inside {w member element : Watch} :
    member ∈ w.decoder.members → HasElement member element → HasElement w element

/-- The members of a watch that are not roots are the elements of a vector. -/
theorem hasElement_iff {w element : Watch} :
    w.HasElement element ↔ (w.decoder.hasRootMembers = false ∧ element ∈ w.decoder.members) ∨
      ∃ member ∈ w.decoder.members, member.HasElement element := by
  constructor
  · rintro (hmem | ⟨hmember, helement⟩)
    · exact .inl ⟨rfl, hmem⟩
    · exact .inr ⟨_, hmember, helement⟩
  · rintro (⟨hvector, hmem⟩ | ⟨member, hmember, helement⟩)
    · obtain ⟨var, expression, decoder⟩ := w
      cases decoder with
      | vector length array elements => exact .here hmem
      | _ => nomatch hvector
    · exact .inside hmember helement

theorem mem_derivedRoots_iff {w : Watch} {name : String} :
    name ∈ w.derivedRoots ↔ name ∈ w.decoder.ownVars ∨ ∃ member ∈ w.decoder.members,
      (w.decoder.hasRootMembers = true ∧ name = member.var) ∨ name ∈ member.derivedRoots := by
  rw [derivedRoots_eq, List.mem_append, List.mem_flatMap]
  refine or_congr_right (exists_congr fun member ↦ and_congr_right fun _ ↦ ?_)
  cases w.decoder.hasRootMembers <;> simp [roots]

/-- A watch reads its own object, its derived roots, and the objects of the vector elements in it,
and nothing else. -/
theorem mem_vars_iff_roots_or_elements : ∀ (w : Watch) (name : String),
    name ∈ w.vars ↔ name = w.var ∨ name ∈ w.derivedRoots ∨
      ∃ element, w.HasElement element ∧ name = element.var := by
  intro w name
  have hmembers : ∀ member ∈ w.decoder.members, name ∈ member.vars ↔ name = member.var ∨
      name ∈ member.derivedRoots ∨ ∃ element, member.HasElement element ∧ name = element.var :=
    fun member _ ↦ mem_vars_iff_roots_or_elements member name
  rw [mem_vars_iff, mem_derivedRoots_iff]
  simp only [hasElement_iff (w := w)]
  constructor
  · rintro (hself | hown | ⟨member, hmember, hread⟩)
    · exact .inl hself
    · exact .inr (.inl (.inl hown))
    · rcases (hmembers member hmember).mp hread with hvar | hroot | ⟨element, helement, hvar⟩
      · -- The object of a member is a root, or the member is an element of a vector.
        cases hkind : w.decoder.hasRootMembers with
        | true => exact .inr (.inl (.inr ⟨member, hmember, .inl ⟨rfl, hvar⟩⟩))
        | false => exact .inr (.inr ⟨member, .inl ⟨rfl, hmember⟩, hvar⟩)
      · exact .inr (.inl (.inr ⟨member, hmember, .inr hroot⟩))
      · exact .inr (.inr ⟨element, .inr ⟨member, hmember, helement⟩, hvar⟩)
  · rintro (hself | (hown | ⟨member, hmember, ⟨-, hvar⟩ | hroot⟩) |
      ⟨element, ⟨-, hmember⟩ | ⟨member, hmember, helement⟩, hvar⟩)
    · exact .inl hself
    · exact .inr (.inl hown)
    · exact .inr (.inr ⟨member, hmember, (hmembers member hmember).mpr (.inl hvar)⟩)
    · exact .inr (.inr ⟨member, hmember, (hmembers member hmember).mpr (.inr (.inl hroot))⟩)
    · exact .inr (.inr ⟨element, hmember, (hmembers element hmember).mpr (.inl hvar)⟩)
    · exact .inr (.inr ⟨member, hmember,
        (hmembers member hmember).mpr (.inr (.inr ⟨element, helement, hvar⟩))⟩)
termination_by w => sizeOf w
decreasing_by
  rename_i hmember
  obtain ⟨var, expression, decoder⟩ := w
  have := sizeOf_lt_of_mem_members hmember
  simp only [mk.sizeOf_spec, Watch.decoder] at this ⊢
  omega

end Watch

/-! ### Registries -/

namespace WatchRegistry

variable {registry : WatchRegistry} {vars : Watch → List String} {changed : List String}

/-- The registries that arise when watches are registered and removed. -/
inductive Arises : WatchRegistry → Prop
  | empty : Arises empty
  | insert {registry : WatchRegistry} (h : Arises registry) (id : Nat) (w : Watch) :
    Arises (registry.insert id w).2
  | remove {registry : WatchRegistry} (h : Arises registry) (id : Nat) :
    Arises (registry.remove id).2

theorem Arises.ordered (h : registry.Arises) :
    NumberedTable.Ordered registry.watches.entries := by
  induction h with
  | empty => exact .nil
  | insert _ id w ih => exact ih.put id w
  | remove _ id ih => exact ih.filter _

theorem mem_idsReading (h : NumberedTable.Ordered registry.watches.entries) {id : Nat} :
    id ∈ registry.idsReading vars changed ↔
      ∃ w, registry.get? id = some w ∧ ∃ name ∈ vars w, name ∈ changed := by
  have hget : ∀ w, registry.get? id = some w ↔ (id, w) ∈ registry.watches.entries :=
    fun w ↦ NumberedTable.get?_eq_some_iff h
  simp only [idsReading, List.mem_map, List.mem_filter, List.any_eq_true, List.contains_iff_mem,
    hget]
  constructor
  · rintro ⟨⟨_, w⟩, ⟨hentry, hreads⟩, rfl⟩
    exact ⟨w, hentry, hreads⟩
  · rintro ⟨w, hentry, hreads⟩
    exact ⟨(id, w), ⟨hentry, hreads⟩, rfl⟩

/-- The numbers of watches that read something come in increasing order. -/
theorem idsReading_increasing (h : NumberedTable.Ordered registry.watches.entries) :
    (registry.idsReading vars changed).Pairwise (· < ·) :=
  List.pairwise_map.mpr (h.filter _)

theorem idsReading_nil (registry : WatchRegistry) (vars : Watch → List String) :
    registry.idsReading vars [] = [] := by
  simp [idsReading]

/-- Who reads more objects is among the readers more often. -/
theorem idsReading_sublist {vars' : Watch → List String} (hvars : ∀ w, vars w ⊆ vars' w)
    (registry : WatchRegistry) (changed : List String) :
    (registry.idsReading vars changed).Sublist (registry.idsReading vars' changed) := by
  refine (List.monotone_filter_right _ fun entry hreads ↦ ?_).map Prod.fst
  obtain ⟨name, hname, hchanged⟩ := List.any_eq_true.mp hreads
  exact List.any_eq_true.mpr ⟨name, hvars entry.2 hname, hchanged⟩

/-- A watch whose structure depends on a changed object reads this object. -/
theorem restructuredBy_sublist (registry : WatchRegistry) (changed : List String) :
    (registry.restructuredBy changed).Sublist (registry.affectedBy changed) :=
  idsReading_sublist Watch.structuralVars_subset registry changed

/-- A watch reads exactly its own object, its derived roots and the objects of the vector elements
that occur in it at any depth, and its structure depends on some of these. So in every registry that
arises, the watches that a change restructures are some of those that it affects, and both come in
increasing order without repetition. -/
theorem vars_accounted :
    (∀ w : Watch,
      (∀ name, name ∈ w.vars ↔ name = w.var ∨ name ∈ w.derivedRoots ∨
        ∃ element, w.HasElement element ∧ name = element.var) ∧
      w.structuralVars ⊆ w.vars) ∧
    ∀ registry : WatchRegistry, registry.Arises → ∀ changed : List String,
      (registry.restructuredBy changed).Sublist (registry.affectedBy changed) ∧
      (registry.affectedBy changed).Pairwise (· < ·) ∧
      (registry.restructuredBy changed).Pairwise (· < ·) := by
  refine ⟨fun w ↦ ⟨w.mem_vars_iff_roots_or_elements, w.structuralVars_subset⟩,
    fun registry h changed ↦ ?_⟩
  exact ⟨restructuredBy_sublist registry changed, idsReading_increasing h.ordered,
    idsReading_increasing h.ordered⟩

/-- A vector of maps whose values are pairs of a string and of a vector. -/
def layeredWatch : Watch :=
  let second : Watch := ⟨"var10", "s", .vector "var11" (some "var12") [⟨"var12.0", "0", .int⟩]⟩
  let pair : Watch := ⟨"var7", "p", .pair ⟨"var8", "f", .str "var9"⟩ second⟩
  let map : Watch := ⟨"var3.0", "0", .map "var4" ["var5"] [⟨16, ⟨"var6", "k", .int⟩, pair⟩]⟩
  ⟨"var1", "v", .vector "var2" (some "var3") [map]⟩

/-- Two watches, the later one with the smaller number. -/
def layeredRegistry : WatchRegistry :=
  ((empty.insert 2 ⟨"var13", "n", .int⟩).2.insert 1 layeredWatch).2

theorem vars_accounted_of_layered :
    layeredRegistry.Arises ∧ layeredWatch.HasElement ⟨"var12.0", "0", .int⟩ ∧
      "var12.0" ∈ layeredWatch.vars ∧
      layeredRegistry.restructuredBy ["var5", "var13"] = [1] ∧
      layeredRegistry.affectedBy ["var5", "var13"] = [1, 2] ∧
      (layeredRegistry.restructuredBy ["var5", "var13"]).Sublist
        (layeredRegistry.affectedBy ["var5", "var13"]) := by
  have harises : layeredRegistry.Arises := (Arises.empty.insert 2 _).insert 1 _
  have helement : layeredWatch.HasElement ⟨"var12.0", "0", .int⟩ :=
    .inside List.mem_cons_self (.inside (List.mem_cons_of_mem _ List.mem_cons_self)
      (.inside (List.mem_cons_of_mem _ List.mem_cons_self) (.here List.mem_cons_self)))
  obtain ⟨hwatches, hregistries⟩ := vars_accounted
  have hread : "var12.0" ∈ layeredWatch.vars :=
    ((hwatches layeredWatch).1 "var12.0").mpr (.inr (.inr ⟨_, helement, rfl⟩))
  have hentries : layeredRegistry.watches.entries =
      [(1, layeredWatch), (2, ⟨"var13", "n", .int⟩)] := rfl
  refine ⟨harises, helement, hread, ?_, ?_, (hregistries _ harises _).1⟩
  · simp [restructuredBy, idsReading, hentries, layeredWatch, Watch.structuralVars,
      Decoder.ownStructure, Decoder.members, MapNode.key, MapNode.value]
  · simp [affectedBy, idsReading, hentries, layeredWatch, Watch.vars, Decoder.ownVars,
      Decoder.members, MapNode.key, MapNode.value]

end WatchRegistry

end DebugLink
