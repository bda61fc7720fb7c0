import DebugLink.Proofs.Variable.Name
import DebugLink.Watch.Basic

/-!
The objects of a watch, member by member. The derived roots of a watch are those of its decoder
followed by those of its members; the members of a pair and of a map are roots themselves, and the
elements of a vector are not.
-/

set_option autoImplicit false

namespace DebugLink

/-- The root objects of a watch whose own object is a root. -/
def Watch.roots (w : Watch) : List String :=
  w.var :: w.derivedRoots

/-- The root objects of the key and the value at a node. -/
def MapNode.roots (node : MapNode) : List String :=
  node.key.roots ++ node.value.roots

namespace Watch

variable {var expression : String}

theorem mem_vars_iff {w : Watch} {name : String} :
    name ∈ w.vars ↔ name = w.var ∨ name ∈ w.decoder.ownVars ∨
      ∃ member ∈ w.decoder.members, name ∈ member.vars := by
  obtain ⟨var, expression, decoder⟩ := w
  simp [vars, Watch.var, Watch.decoder]

theorem derivedRoots_eq (w : Watch) :
    w.derivedRoots = w.decoder.ownVars ++ w.decoder.members.flatMap
      fun member ↦ if w.decoder.hasRootMembers then member.roots else member.derivedRoots := by
  obtain ⟨var, expression, decoder⟩ := w
  rw [derivedRoots, List.flatMap_subtype fun _ _ ↦ rfl, List.unattach_attach]
  rfl

/-! ### The decoders -/

theorem derivedRoots_of_members_eq_nil {decoder : Decoder} (h : decoder.members = []) :
    derivedRoots ⟨var, expression, decoder⟩ = decoder.ownVars := by
  rw [derivedRoots_eq, show Watch.decoder ⟨var, expression, decoder⟩ = decoder from rfl, h,
    List.flatMap_nil, List.append_nil]

theorem derivedRoots_pair (first second : Watch) :
    derivedRoots ⟨var, expression, .pair first second⟩ = first.roots ++ second.roots := by
  rw [derivedRoots_eq]
  simp [Watch.decoder, Decoder.ownVars, Decoder.members, Decoder.hasRootMembers]

theorem derivedRoots_vector (length : String) (array : Option String) (elements : List Watch) :
    derivedRoots ⟨var, expression, .vector length array elements⟩ =
      length :: array.toList ++ elements.flatMap derivedRoots := by
  rw [derivedRoots_eq]
  simp [Watch.decoder, Decoder.ownVars, Decoder.members, Decoder.hasRootMembers]

theorem derivedRoots_map (count : String) (links : List String) (nodes : List MapNode) :
    derivedRoots ⟨var, expression, .map count links nodes⟩ =
      count :: links ++ nodes.flatMap MapNode.roots := by
  rw [derivedRoots_eq]
  simp [Watch.decoder, Decoder.ownVars, Decoder.members, Decoder.hasRootMembers, List.flatMap_assoc]
  rfl

/-! ### Watches on known objects -/

open Variable

/-- A watch can be read where objects of the given names are known: each object that it reads is
among them, and goes with its own object or with one of its derived roots. -/
structure Stands (w : Watch) (known : List String) : Prop where
  known : ∀ name ∈ w.vars, name ∈ known
  rooted : ∀ name ∈ w.vars, rootOf name ∈ rootOf w.var :: w.derivedRoots

theorem Stands.mono {w : Watch} {before after : List String} (h : w.Stands before)
    (hkept : ∀ name ∈ before, rootOf name ∈ rootOf w.var :: w.derivedRoots → name ∈ after) :
    w.Stands after :=
  ⟨fun name hname ↦ hkept name (h.known name hname) (h.rooted name hname), h.rooted⟩

/-- A watch can be read if its members can, and these go with its derived roots. -/
theorem Stands.of_members {w : Watch} {known : List String} (hvar : w.var ∈ known)
    (hroots : ∀ root ∈ w.derivedRoots, root ∈ known ∧ isRootName root)
    (hmembers : ∀ member ∈ w.decoder.members,
      member.Stands known ∧ rootOf member.var ∈ w.derivedRoots) : w.Stands known := by
  have hown : ∀ name ∈ w.decoder.ownVars, name ∈ w.derivedRoots := by
    intro name hname
    rw [derivedRoots_eq]
    exact List.mem_append_left _ hname
  have hderived : ∀ member ∈ w.decoder.members,
      ∀ root ∈ member.derivedRoots, root ∈ w.derivedRoots := by
    intro member hmember root hroot
    rw [derivedRoots_eq]
    refine List.mem_append_right _ (List.mem_flatMap.mpr ⟨member, hmember, ?_⟩)
    split
    · exact List.mem_cons_of_mem _ hroot
    · exact hroot
  refine ⟨fun name hname ↦ ?_, fun name hname ↦ ?_⟩
  · rcases mem_vars_iff.mp hname with rfl | hname | ⟨member, hmember, hname⟩
    · exact hvar
    · exact (hroots name (hown name hname)).1
    · exact (hmembers member hmember).1.known name hname
  · rcases mem_vars_iff.mp hname with rfl | hname | ⟨member, hmember, hname⟩
    · exact List.mem_cons_self
    · rw [rootOf_eq_self (hroots name (hown name hname)).2]
      exact List.mem_cons_of_mem _ (hown name hname)
    · obtain ⟨hstands, hvar⟩ := hmembers member hmember
      rcases List.mem_cons.mp (hstands.rooted name hname) with heq | hroot
      · exact List.mem_cons_of_mem _ (heq ▸ hvar)
      · exact List.mem_cons_of_mem _ (hderived member hmember _ hroot)

end Watch

end DebugLink
