import DebugLink.Watch.Native

/-!
Watches: variable objects together with how to decode them. A decoder names the further objects that
it reads. Those created on behalf of a watch are roots of their own, except the elements of a
vector, which are children of its array.
-/

set_option autoImplicit false

namespace DebugLink

mutual

/-- A variable object with the full expression of its value and a decoder. -/
inductive Watch
  | mk (var expression : String) (decoder : Decoder)

/-- How a value is decoded, and which objects that takes. -/
inductive Decoder
  | int
  | char
  | cString
  /-- A string; its characters are read from another object. -/
  | str (chars : String)
  | pair (first second : Watch)
  /-- A vector: the objects of its length and, unless it is empty, of its elements. -/
  | vector (length : String) (array : Option String) (elements : List Watch)
  /-- A map: the objects of its size and of the links followed through its tree. -/
  | map (count : String) (links : List String) (nodes : List MapNode)
  | pointer (pointee : String)
  | raw

/-- A node of the tree of a map. -/
inductive MapNode
  | mk (address : Address) (key value : Watch)

end

instance : Inhabited Decoder :=
  ⟨.raw⟩

instance : Inhabited Watch :=
  ⟨⟨"", "", .raw⟩⟩

namespace MapNode

def address : MapNode → Address
  | ⟨a, _, _⟩ => a

def key : MapNode → Watch
  | ⟨_, k, _⟩ => k

def value : MapNode → Watch
  | ⟨_, _, v⟩ => v

end MapNode

namespace Watch

def var : Watch → String
  | ⟨v, _, _⟩ => v

def expression : Watch → String
  | ⟨_, e, _⟩ => e

def decoder : Watch → Decoder
  | ⟨_, _, d⟩ => d

end Watch

namespace Decoder

/-- The objects that a decoder reads itself, its members apart. -/
def ownVars : Decoder → List String
  | str chars => [chars]
  | vector length array _ => length :: array.toList
  | map count links _ => count :: links
  | _ => []

/-- The objects whose change makes the structure of a decoder out of date, its members apart. -/
def ownStructure : Decoder → List String
  | vector length _ _ => [length]
  | map count links _ => count :: links
  | _ => []

/-- The watches of which a value is made up, in order. -/
def members : Decoder → List Watch
  | pair first second => [first, second]
  | vector _ _ elements => elements
  | map _ _ nodes => nodes.flatMap fun node ↦ [node.key, node.value]
  | _ => []

/-- Whether the members are objects of their own rather than children of one. -/
def hasRootMembers : Decoder → Bool
  | vector .. => false
  | _ => true

end Decoder

private theorem sizeOf_key_lt {nodes : List MapNode} {node : MapNode} (h : node ∈ nodes) :
    sizeOf node.key < sizeOf nodes ∧ sizeOf node.value < sizeOf nodes := by
  have inside := List.sizeOf_lt_of_mem h
  obtain ⟨a, k, v⟩ := node
  simp only [MapNode.key, MapNode.value, MapNode.mk.sizeOf_spec] at inside ⊢
  omega

theorem Watch.sizeOf_lt_of_mem_members {w : Watch} {d : Decoder} (h : w ∈ d.members) :
    sizeOf w < sizeOf d := by
  cases d with
  | pair first second =>
    simp only [Decoder.members, List.mem_cons, List.not_mem_nil, or_false] at h
    rcases h with rfl | rfl <;> simp only [Decoder.pair.sizeOf_spec] <;> omega
  | vector length array elements =>
    have inside := List.sizeOf_lt_of_mem (show w ∈ elements from h)
    simp only [Decoder.vector.sizeOf_spec]
    omega
  | map count links nodes =>
    simp only [Decoder.members, List.mem_flatMap, List.mem_cons, List.not_mem_nil, or_false] at h
    obtain ⟨node, hnode, rfl | rfl⟩ := h <;> have inside := sizeOf_key_lt hnode <;>
      simp only [Decoder.map.sizeOf_spec] <;> omega
  | _ => simp [Decoder.members] at h

namespace Watch

/-- Every object that a watch reads, its own first. -/
def vars : Watch → List String
  | ⟨var, _, decoder⟩ =>
    var :: (decoder.ownVars ++ decoder.members.attach.flatMap fun ⟨m, _⟩ ↦ m.vars)
termination_by w => sizeOf w
decreasing_by
  rename_i h
  have := sizeOf_lt_of_mem_members h
  simp only [mk.sizeOf_spec]
  omega

/-- The root objects that were created on behalf of a watch, its own apart. -/
def derivedRoots : Watch → List String
  | ⟨_, _, decoder⟩ =>
    decoder.ownVars ++ decoder.members.attach.flatMap fun ⟨m, _⟩ ↦
      if decoder.hasRootMembers then m.var :: m.derivedRoots else m.derivedRoots
termination_by w => sizeOf w
decreasing_by
  all_goals
    rename_i h _
    have := sizeOf_lt_of_mem_members h
    simp only [mk.sizeOf_spec]
    omega

/-- The objects whose change makes the structure of a watch out of date: lengths of vectors, sizes
of maps, and links of their trees. -/
def structuralVars : Watch → List String
  | ⟨_, _, decoder⟩ =>
    decoder.ownStructure ++ decoder.members.attach.flatMap fun ⟨m, _⟩ ↦ m.structuralVars
termination_by w => sizeOf w
decreasing_by
  rename_i h
  have := sizeOf_lt_of_mem_members h
  simp only [mk.sizeOf_spec]
  omega

end Watch

end DebugLink
