import DebugLink.Watch.Native
import Mathlib.Data.List.Nodup
import Mathlib.Data.Tree.Basic
import Mathlib.Order.Basic

/-!
The trees of maps, by the addresses of their nodes. A walk in order keeps a stack of nodes, and with
each of them there is a tree to its right that is still to come (`Frame`). Going down to the left
puts the spine of a tree on the stack, and what is then pending is the tree in order
(`NodeTree.pending_spine`).
-/

set_option autoImplicit false

namespace DebugLink

/-- A tree of nodes, given by their addresses. -/
abbrev NodeTree : Type :=
  BinaryTree Address

namespace NodeTree

/-- The address at which a tree begins, null if there is no node. -/
def top : NodeTree → Address
  | .nil => 0
  | .node address _ _ => address

/-- The nodes in order. -/
def inorder : NodeTree → List Address
  | .nil => []
  | .node address left right => inorder left ++ address :: inorder right

/-- A node that is still to be listed, and the tree to its right. -/
abbrev Frame : Type :=
  Address × NodeTree

/-- The nodes that are passed on the way down to the left, the lowest one first. -/
def spine : NodeTree → List Frame
  | .nil => []
  | .node address left right => spine left ++ [(address, right)]

/-- The nodes that come, in order, when some are still to be listed. -/
def pending (frames : List Frame) : List Address :=
  frames.flatMap fun frame ↦ frame.1 :: inorder frame.2

variable {tree : NodeTree} {frames rest : List Frame} {visited : List Address}

@[simp]
theorem pending_cons (frame : Frame) (frames : List Frame) :
    pending (frame :: frames) = frame.1 :: (inorder frame.2 ++ pending frames) :=
  rfl

@[simp]
theorem pending_append (frames frames' : List Frame) :
    pending (frames ++ frames') = pending frames ++ pending frames' :=
  List.flatMap_append

/-- What is pending on the way down is the tree itself. -/
theorem pending_spine (tree : NodeTree) : pending (spine tree) = inorder tree := by
  induction tree with
  | nil => rfl
  | node address left right ihl _ =>
    rw [spine, pending_append, ihl, inorder]
    simp [pending]

theorem pending_perm (frames : List Frame) :
    (pending frames).Perm (frames.map Prod.fst ++ frames.flatMap fun frame ↦ inorder frame.2) := by
  induction frames with
  | nil => exact .nil
  | cons frame frames ih =>
    simp only [pending_cons, List.map_cons, List.flatMap_cons, List.cons_append]
    refine List.Perm.cons _ ((ih.append_left _).trans ?_)
    rw [← List.append_assoc, ← List.append_assoc]
    exact List.perm_append_comm.append_right _

/-! ### What lies ahead -/

/-- What lies ahead of a walk that is about to go down a tree: different nodes other than null, none
of which was visited except those that are still to be listed. -/
structure Ahead (tree : NodeTree) (frames : List Frame) (visited : List Address) : Prop where
  nodup : (inorder tree ++ pending frames).Nodup
  nonzero : 0 ∉ inorder tree ++ pending frames
  unseen : ∀ address ∈ inorder tree ++ frames.flatMap (fun frame ↦ inorder frame.2),
    address ∉ visited
  once : visited.Nodup

/-- At the beginning everything lies ahead. -/
theorem Ahead.start (hnodup : (inorder tree).Nodup) (hnonzero : 0 ∉ inorder tree) :
    Ahead tree [] [] where
  nodup := by simpa [pending] using hnodup
  nonzero := by simpa [pending] using hnonzero
  unseen := by simp
  once := .nil

/-- The way down has been gone, and the lowest node is listed. -/
theorem Ahead.pop {frame : Frame} (h : Ahead tree frames visited)
    (hframes : spine tree ++ frames = frame :: rest) :
    Ahead frame.2 rest ((spine tree).map Prod.fst ++ visited) := by
  have hpending : inorder tree ++ pending frames =
      frame.1 :: (inorder frame.2 ++ pending rest) := by
    rw [← pending_spine, ← pending_append, hframes, pending_cons]
  have hsplit : (pending (spine tree ++ frames)).Nodup := by
    rw [pending_append, pending_spine]
    exact h.nodup
  have hdisjoint := List.nodup_append.mp ((pending_perm _).nodup_iff.mp hsplit)
  have hpassed : ∀ address ∈ (spine tree).map Prod.fst, address ∈ inorder tree := by
    intro address hmem
    rw [← pending_spine]
    exact (pending_perm _).mem_iff.mpr (List.mem_append_left _ hmem)
  have hright : ∀ address ∈ inorder frame.2 ++ rest.flatMap (fun frame ↦ inorder frame.2),
      address ∈ (spine tree ++ frames).flatMap fun frame ↦ inorder frame.2 := by
    intro address hmem
    rwa [hframes]
  refine ⟨?_, ?_, fun address hmem hvisited ↦ ?_, ?_⟩
  · exact (hpending ▸ h.nodup).of_cons
  · intro hzero
    exact h.nonzero (hpending ▸ List.mem_cons_of_mem _ hzero)
  · rcases List.mem_append.mp hvisited with hspine | hold
    · refine hdisjoint.2.2 address ?_ address (hright address hmem) rfl
      rw [List.map_append]
      exact List.mem_append_left _ hspine
    · refine h.unseen address ?_ hold
      have hmem := hright address hmem
      rw [List.flatMap_append, List.mem_append] at hmem
      refine List.mem_append.mpr (hmem.imp_left fun hspine ↦ ?_)
      rw [← pending_spine]
      exact (pending_perm _).mem_iff.mpr (List.mem_append_right _ hspine)
  · refine List.nodup_append.mpr ⟨?_, h.once, ?_⟩
    · have hmap := hdisjoint.1
      rw [List.map_append] at hmap
      exact hmap.of_append_left
    · rintro address hmem _ hvisited rfl
      exact h.unseen address (List.mem_append_left _ (hpassed address hmem)) hvisited

/-! ### Search trees -/

/-- Whether the keys at the nodes of a tree are in the order of a search tree. -/
def IsSearch {κ : Type} [Preorder κ] (keyAt : Address → κ) : NodeTree → Prop
  | .nil => True
  | .node address left right =>
    ((∀ other ∈ inorder left, keyAt other < keyAt address) ∧
      ∀ other ∈ inorder right, keyAt address < keyAt other) ∧
    IsSearch keyAt left ∧ IsSearch keyAt right

/-- A search tree in order has its keys in order. -/
theorem IsSearch.pairwise {κ : Type} [Preorder κ] {keyAt : Address → κ} :
    ∀ {tree : NodeTree}, IsSearch keyAt tree →
      (inorder tree).Pairwise fun address address' ↦ keyAt address < keyAt address'
  | .nil, _ => .nil
  | .node address left right, ⟨⟨hleft, hright⟩, hsearchl, hsearchr⟩ => by
    refine List.pairwise_append.mpr ⟨hsearchl.pairwise,
      List.pairwise_cons.mpr ⟨hright, hsearchr.pairwise⟩, fun other hother later hlater ↦ ?_⟩
    rcases List.mem_cons.mp hlater with rfl | hmem
    · exact hleft other hother
    · exact (hleft other hother).trans (hright later hmem)

end NodeTree

end DebugLink
