import DebugLink.Proofs.Session.Replies
import DebugLink.Proofs.Watch.Addresses
import Mathlib.Data.Fintype.Card

/-!
Walks through memory that may be damaged. Whatever the debugger says to the expressions of links and
members, a walk through the tree of a map comes to its end. What it asks about nodes are its visits,
and they repeat nothing and leave the null address alone (`Unrepeated`), because a node is gone down
from only if it was not visited before, and a node is listed only when it is taken from the stack.
The nodes that are listed are those whose members were both obtained (`Listing`), also when a step
fails (`Session.ensures_listNodes`).
-/

set_option autoImplicit false

namespace DebugLink

/-! ### Visits -/

/-- What a walk asks for at a time: a part of the node at an address. -/
structure Visit where
  address : Address
  part : NodePart
  deriving DecidableEq

/-- The expression that is asked for. -/
def Visit.expression (key value : TypeName) (visit : Visit) : String :=
  visit.part.expression key value visit.address

/-- Different visits ask for different expressions. -/
theorem Visit.expression_injective (key value : TypeName) :
    Function.Injective (Visit.expression key value) := by
  rintro ⟨address, part⟩ ⟨address', part'⟩ h
  obtain ⟨rfl, rfl⟩ := NodePart.expression_inj.mp h
  rfl

/-- The visits on the way down to the left, the lowest node given first. -/
def descents (below : List Address) : List Visit :=
  below.reverse.map (⟨·, .left⟩)

/-- The nodes of which a part is visited, in order. -/
def nodesAt (part : NodePart) (visits : List Visit) : List Address :=
  (visits.filter (·.part = part)).map Visit.address

/-- The way down asks for the left links of its nodes. -/
@[simp]
theorem mem_descents {below : List Address} {visit : Visit} :
    visit ∈ descents below ↔ visit.address ∈ below ∧ visit.part = .left := by
  obtain ⟨address, part⟩ := visit
  simp [descents, eq_comm]

/-- The highest node of a way down is visited first. -/
theorem descents_append (below : List Address) (address : Address) :
    descents (below ++ [address]) = ⟨address, .left⟩ :: descents below := by
  simp [descents]

/-- A way down over different nodes asks for nothing twice. -/
theorem nodup_descents {below : List Address} (h : below.Nodup) : (descents below).Nodup :=
  (List.nodup_reverse.mpr h).map fun _ _ heq ↦ congrArg Visit.address heq

section NodesAt

variable {part : NodePart} {visits : List Visit} {address : Address}

/-- The nodes of visits in a row are those of the first ones and then those of the others. -/
@[simp]
theorem nodesAt_append (part : NodePart) (before after : List Visit) :
    nodesAt part (before ++ after) = nodesAt part before ++ nodesAt part after := by
  simp [nodesAt]

/-- A node is among those whose part was visited if that visit was made. -/
@[simp]
theorem mem_nodesAt : address ∈ nodesAt part visits ↔ ⟨address, part⟩ ∈ visits := by
  constructor
  · intro h
    obtain ⟨visit, hfilter, rfl⟩ := List.mem_map.mp h
    obtain ⟨hmem, hpart⟩ := List.mem_filter.mp hfilter
    obtain rfl : visit.part = part := of_decide_eq_true hpart
    exact hmem
  · exact fun h ↦ List.mem_map.mpr ⟨_, List.mem_filter.mpr ⟨h, decide_eq_true rfl⟩, rfl⟩

/-- A part that is never asked for twice belongs to different nodes. -/
theorem nodup_nodesAt (h : visits.Nodup) : (nodesAt part visits).Nodup := by
  refine (h.filter _).map_on ?_
  rintro ⟨address, part₁⟩ hfirst ⟨address', part₂⟩ hsecond rfl
  have hpart₁ : part₁ = part := by simpa using (List.mem_filter.mp hfirst).2
  have hpart₂ : part₂ = part := by simpa using (List.mem_filter.mp hsecond).2
  rw [hpart₁, hpart₂]

/-- No right link is asked for on the way down. -/
theorem nodesAt_right_descents (below : List Address) : nodesAt .right (descents below) = [] := by
  refine List.eq_nil_iff_forall_not_mem.mpr fun address hmem ↦ ?_
  nomatch (mem_descents.mp (mem_nodesAt.mp hmem)).2

end NodesAt

/-! ### The order of a walk -/

/-- What a walk has under way: nodes that are still to be listed, all different, and all nodes
visited so far. -/
structure Underway (stack visited : List Address) : Prop where
  distinct : stack.Nodup
  subset : stack ⊆ visited
  once : visited.Nodup

/-- A way down to the left, which passes nodes that were not visited before. -/
structure Descent (visited below : List Address) : Prop where
  nodup : (below ++ visited).Nodup
  nonzero : 0 ∉ below

/-- Visits from some point of a walk on: none is repeated, the way down passes new nodes other than
null, and all other visits are to nodes on this way or to some that were still to be listed. -/
structure Unrepeated (stack visited : List Address) (visits : List Visit) : Prop where
  nodup : visits.Nodup
  fresh : ∀ address, ⟨address, .left⟩ ∈ visits → address ≠ 0 ∧ address ∉ visited
  reached : ∀ visit ∈ visits, ⟨visit.address, .left⟩ ∈ visits ∨ visit.address ∈ stack

variable {stack visited below rest : List Address} {address : Address} {visits : List Visit}

/-- A way down may end at once. -/
theorem Descent.nil (h : visited.Nodup) : Descent visited [] :=
  ⟨h, by simp⟩

/-- A way down may begin at a node that is not null and was not visited before. -/
theorem Descent.snoc (h : Descent (address :: visited) below) (hzero : address ≠ 0) :
    Descent visited (below ++ [address]) := by
  refine ⟨by simpa using h.nodup, ?_⟩
  rw [List.mem_append, List.mem_singleton, not_or]
  exact ⟨h.nonzero, hzero.symm⟩

namespace Underway

/-- At the beginning of a walk nothing is under way. -/
theorem nil : Underway [] [] :=
  ⟨.nil, List.Subset.refl _, .nil⟩

/-- The nodes of a way down are none of those that are still to be listed. -/
theorem nodup_append (h : Underway stack visited) (hbelow : Descent visited below) :
    (below ++ stack).Nodup := by
  have hnodup := List.nodup_append.mp hbelow.nodup
  exact List.nodup_append.mpr
    ⟨hnodup.1, h.distinct, fun a ha b hb ↦ hnodup.2.2 a ha b (h.subset hb)⟩

/-- The lowest node is taken from the stack. -/
theorem pop (h : Underway stack visited) (hbelow : Descent visited below)
    (hstack : below ++ stack = address :: rest) : Underway rest (below ++ visited) where
  distinct := (hstack ▸ h.nodup_append hbelow).of_cons
  subset := by
    have hsubset : below ++ stack ⊆ below ++ visited :=
      List.append_subset.mpr ⟨List.subset_append_left _ _, fun _ hmem ↦
        List.mem_append_right _ (h.subset hmem)⟩
    rw [hstack] at hsubset
    exact fun node hmem ↦ hsubset (List.mem_cons_of_mem _ hmem)
  once := hbelow.nodup

end Underway

namespace Unrepeated

/-- No visits repeat nothing. -/
theorem nil : Unrepeated stack visited [] :=
  ⟨.nil, by simp, by simp⟩

/-- The way down, some other visits to the node that is taken from the stack, and visits from there
on. -/
theorem node (hunderway : Underway stack visited) (hbelow : Descent visited below)
    (hstack : below ++ stack = address :: rest) {parts : List NodePart} (hparts : parts.Nodup)
    (hleft : .left ∉ parts) (h : Unrepeated rest (below ++ visited) visits) :
    Unrepeated stack visited (descents below ++ (parts.map (⟨address, ·⟩) ++ visits)) := by
  have hnodup := hunderway.nodup_append hbelow
  have haddress : address ∈ below ++ stack := hstack ▸ List.mem_cons_self
  have hnew : ∀ part, (⟨address, part⟩ : Visit) ∉ visits := by
    intro part hmem
    rcases h.reached _ hmem with hpassed | hrest
    · refine (h.fresh _ hpassed).2 ?_
      rcases List.mem_append.mp haddress with hmem | hmem
      · exact List.mem_append_left _ hmem
      · exact List.mem_append_right _ (hunderway.subset hmem)
    · exact (List.nodup_cons.mp (hstack ▸ hnodup)).1 hrest
  refine ⟨?_, ?_, ?_⟩
  · refine List.nodup_append.mpr ⟨nodup_descents hbelow.nodup.of_append_left,
      List.nodup_append.mpr ⟨hparts.map fun _ _ heq ↦ congrArg Visit.part heq, h.nodup, ?_⟩, ?_⟩
    · rintro _ hpart _ hvisit rfl
      obtain ⟨part, -, rfl⟩ := List.mem_map.mp hpart
      exact hnew part hvisit
    · rintro ⟨passed, part⟩ hpassed _ hvisit rfl
      obtain ⟨hmem, rfl⟩ := mem_descents.mp hpassed
      rcases List.mem_append.mp hvisit with hpart | hvisit
      · obtain ⟨part, hpart, heq⟩ := List.mem_map.mp hpart
        obtain rfl : part = .left := congrArg Visit.part heq
        exact hleft hpart
      · exact (h.fresh _ hvisit).2 (List.mem_append_left _ hmem)
  · intro passed hmem
    rcases List.mem_append.mp hmem with hpassed | hmem
    · have hpassed : passed ∈ below := (mem_descents.mp hpassed).1
      refine ⟨fun hzero ↦ hbelow.nonzero (hzero ▸ hpassed), fun hvisited ↦ ?_⟩
      exact (List.nodup_append.mp hbelow.nodup).2.2 _ hpassed _ hvisited rfl
    rcases List.mem_append.mp hmem with hpart | hvisit
    · obtain ⟨part, hpart, heq⟩ := List.mem_map.mp hpart
      obtain rfl : part = .left := congrArg Visit.part heq
      exact absurd hpart hleft
    · exact (h.fresh _ hvisit).imp_right fun hnew hold ↦ hnew (List.mem_append_right _ hold)
  · have hpending : ∀ node ∈ below ++ stack, (⟨node, .left⟩ : Visit) ∈ descents below ++
        (parts.map (⟨address, ·⟩) ++ visits) ∨ node ∈ stack := by
      intro node hmem
      rcases List.mem_append.mp hmem with hpassed | hstack
      · exact .inl (List.mem_append_left _ (mem_descents.mpr ⟨hpassed, rfl⟩))
      · exact .inr hstack
    intro visit hmem
    rcases List.mem_append.mp hmem with hpassed | hmem
    · exact hpending _ (List.mem_append_left _ (mem_descents.mp hpassed).1)
    rcases List.mem_append.mp hmem with hpart | hvisit
    · obtain ⟨part, -, rfl⟩ := List.mem_map.mp hpart
      exact hpending _ haddress
    rcases h.reached _ hvisit with hpassed | hrest
    · exact .inl (List.mem_append_right _ (List.mem_append_right _ hpassed))
    · exact hpending _ (hstack ▸ List.mem_cons_of_mem _ hrest)

/-- The visits of a way down are not repeated. -/
theorem descents (hunderway : Underway stack visited) (hbelow : Descent visited below) :
    Unrepeated stack visited (descents below) := by
  cases below with
  | nil => exact nil
  | cons address rest =>
    simpa using node hunderway hbelow (List.cons_append ..) List.nodup_nil (by simp) nil

end Unrepeated

/-! ### What a walk lists -/

variable {replies : Replies} {key value : TypeName}

/-- The address that comes of an expression for a link, as far as it can be read. -/
def Replies.link (replies : Replies) (expression : String) :
    Except SessionError (Option Address) :=
  (replies.object expression).map fun v ↦ v.value >>= Printed.address?

/-- An expression whose link cannot be read cannot be had. -/
theorem Replies.not_obtains (replies : Replies) {expression : String} {error : SessionError}
    (h : .error error = replies.link expression) : ¬replies.Obtains expression := by
  rintro ⟨v, hobject⟩
  rw [Replies.link, hobject] at h
  nomatch h

/-- An expression for which no watch comes about cannot be had. -/
theorem Replies.not_obtains_of_watch (replies : Replies) {expression : String}
    {error : SessionError} (h : .error error = replies.watch expression) :
    ¬replies.Obtains expression := by
  rintro ⟨v, hobject⟩
  rw [Replies.watch, hobject] at h
  cases h

/-- Whether the keys and the values of all nodes are of scalar type. -/
def Replies.ScalarMembers (replies : Replies) (key value : TypeName) : Prop :=
  ∀ address, replies.IsScalar (NodePart.first.expression key value address) ∧
    replies.IsScalar (NodePart.second.expression key value address)

/-- All members in a table of replies are numbers. -/
theorem Replies.scalarMembers_ofTable {values : List (String × String)} {refused : List String} :
    (ofTable values refused).ScalarMembers key value :=
  fun _ ↦ ⟨isScalar_ofTable _, isScalar_ofTable _⟩

/-- Whether the watches at a node are those that come of the expressions of its members. -/
def Replies.Tells (replies : Replies) (key value : TypeName) (node : MapNode) : Prop :=
  replies.watch (NodePart.first.expression key value node.address) = .ok node.key ∧
    replies.watch (NodePart.second.expression key value node.address) = .ok node.value

/-- What a walk that lists up to a number of nodes comes to from some point on. The nodes listed are
those whose members were asked for and obtained. If the walk ends by itself before it has that many,
no node is left over. -/
structure Listing (replies : Replies) (key value : TypeName) (count : Nat)
    (stack visited : List Address) (result : Except SessionError Unit) (visits : List Visit)
    (nodes : List MapNode) : Prop where
  unrepeated : Unrepeated stack visited visits
  addresses : nodes.map MapNode.address = nodesAt .right visits
  complete : ∀ address, ⟨address, .right⟩ ∈ visits ↔
    (⟨address, .first⟩ ∈ visits ∧ ⟨address, .second⟩ ∈ visits) ∧
      replies.Obtains (NodePart.first.expression key value address) ∧
        replies.Obtains (NodePart.second.expression key value address)
  told : ∀ node ∈ nodes, replies.Tells key value node
  bounded : nodes.length ≤ count
  ended : result = .ok () → nodes.length < count →
    ∀ address, address ∈ stack ∨ ⟨address, .left⟩ ∈ visits → ⟨address, .right⟩ ∈ visits

namespace Listing

variable {count : Nat} {result : Except SessionError Unit} {nodes : List MapNode}
  {error : SessionError}

/-- A walk that is to list no more nodes visits none. -/
theorem zero : Listing replies key value 0 stack visited (.ok ()) [] [] where
  unrepeated := .nil
  addresses := rfl
  complete := by simp
  told := by simp
  bounded := le_rfl
  ended := by simp

/-- A walk with nothing to list visits none. -/
theorem done : Listing replies key value count [] visited (.ok ()) [] [] where
  unrepeated := .nil
  addresses := rfl
  complete := by simp
  told := by simp
  bounded := count.zero_le
  ended := by simp

/-- A walk that fails before it has listed a node. -/
theorem failed (h : Unrepeated stack visited visits)
    (hright : ∀ address, ⟨address, .right⟩ ∉ visits)
    (hsecond : ∀ address, ⟨address, .second⟩ ∈ visits →
      ¬replies.Obtains (NodePart.second.expression key value address)) :
    Listing replies key value count stack visited (.error error) visits [] where
  unrepeated := h
  addresses := (List.eq_nil_iff_forall_not_mem.mpr fun address hmem ↦
    hright address (mem_nodesAt.mp hmem)).symm
  complete address := iff_of_false (hright address) fun h ↦ hsecond address h.1.2 h.2.2
  told := by simp
  bounded := count.zero_le
  ended := nofun

/-- A walk that fails at one of the first parts of a node. -/
theorem stopped (parts : List NodePart) (hunderway : Underway stack visited)
    (hbelow : Descent visited below) (hstack : below ++ stack = address :: rest)
    (hparts : parts.Nodup) (hleft : .left ∉ parts) (hright : .right ∉ parts)
    (hsecond : .second ∈ parts →
      ¬replies.Obtains (NodePart.second.expression key value address)) :
    Listing replies key value count stack visited (.error error)
      (descents below ++ (parts.map (⟨address, ·⟩) ++ [])) [] := by
  refine .failed (.node hunderway hbelow hstack hparts hleft .nil) ?_ ?_
  · intro other hmem
    have hpart : .right ∈ parts ∧ address = other := by simpa using hmem
    exact hright hpart.1
  · intro other hmem
    obtain ⟨hpart, rfl⟩ : .second ∈ parts ∧ address = other := by simpa using hmem
    exact hsecond hpart

/-- A node is listed, and the walk goes on from there. -/
theorem cons {node : MapNode} (hunderway : Underway stack visited)
    (hbelow : Descent visited below) (hstack : below ++ stack = node.address :: rest)
    (htold : replies.Tells key value node)
    (h : Listing replies key value count rest (below ++ visited) result visits nodes) :
    Listing replies key value (count + 1) stack visited result
      (descents below ++ ([NodePart.first, .second, .right].map (⟨node.address, ·⟩) ++ visits))
      (node :: nodes) where
  unrepeated := .node hunderway hbelow hstack (by decide) (by decide) h.unrepeated
  addresses := by
    rw [List.map_cons, h.addresses, nodesAt_append, nodesAt_right_descents, nodesAt_append]
    rfl
  complete address := by
    have hobtains : ∀ {e : String} {w : Watch}, replies.watch e = .ok w → replies.Obtains e := by
      intro e w hwatch
      unfold Replies.watch at hwatch
      cases hobject : replies.object e with
      | error error => rw [hobject] at hwatch; nomatch hwatch
      | ok v => exact ⟨v, hobject⟩
    by_cases haddress : address = node.address
    · subst haddress
      exact iff_of_true (by simp) ⟨by simp, hobtains htold.1, hobtains htold.2⟩
    · simpa [haddress] using h.complete address
  told := List.forall_mem_cons.mpr ⟨htold, h.told⟩
  bounded := Nat.succ_le_succ h.bounded
  ended hok hlength address hpending := by
    have hmem : address ∈ below ++ stack ∨ ⟨address, .left⟩ ∈ visits := by
      simp only [List.mem_append, mem_descents] at hpending ⊢
      simp at hpending
      tauto
    have hright : address = node.address ∨ ⟨address, .right⟩ ∈ visits := by
      rcases hmem with hmem | hvisit
      · rw [hstack] at hmem
        exact (List.mem_cons.mp hmem).imp_right fun hrest ↦
          h.ended hok (Nat.lt_of_succ_lt_succ hlength) address (.inl hrest)
      · exact .inr (h.ended hok (Nat.lt_of_succ_lt_succ hlength) address (.inr hvisit))
    rcases hright with rfl | hvisit
    · simp
    · simp [hvisit]

end Listing

namespace Session

variable (replies) {limit depth : Nat} {s : Session} {trace : List Exchange} {walk : Walk}

/-! ### Walking -/

/-- Following a link asks for its expression once and leaves the nodes as they are. -/
theorem ensures_followLink (expression : String) (walk : Walk) (trace : List Exchange)
    (s : Session) : Keeping.Ensures replies.responder (followLink expression) walk trace s
      fun result walk' trace' s' ↦ result = replies.link expression ∧ walk'.nodes = walk.nodes ∧
        replies.Asks expression trace s trace' s' := by
  refine Keeping.ensures_bind (Keeping.ensures_inWalk
    (ensures_createTracked replies expression walk.created trace s)) ?_ ?_
  · rintro v _ trace' s' ⟨created, rfl, hobject, hasks⟩
    refine Keeping.ensures_bind_modify (Keeping.ensures_pure ⟨?_, rfl, hasks⟩)
    rw [Replies.link, ← hobject]
    rfl
  · rintro error _ trace' s' ⟨created, rfl, hobject, hasks⟩
    refine ⟨?_, rfl, hasks⟩
    rw [Replies.link, ← hobject]
    rfl

/-- The watch at a member of a node. -/
theorem ensures_member {expression : String} (h : replies.IsScalar expression) (walk : Walk)
    (trace : List Exchange) (s : Session) :
    Keeping.Ensures replies.responder (inWalk (buildFrom (build limit (depth + 1)) expression)) walk
      trace s fun result walk' trace' s' ↦ result = replies.watch expression ∧
        walk'.nodes = walk.nodes ∧ replies.Asks expression trace s trace' s' := by
  refine (Keeping.ensures_inWalk (ensures_buildFrom_scalar replies h _ trace s)).mono ?_
  rintro result _ trace' s' ⟨created, rfl, hwatch, hasks⟩
  exact ⟨hwatch, rfl, hasks⟩

/-- There are no more visited nodes than addresses. -/
theorem length_le_addressCount {visited : List Address} (h : visited.Nodup) :
    visited.length ≤ addressCount := by
  have hcard := (h.map (f := UInt64.toFin) fun _ _ ↦ UInt64.toFin_inj.mp).length_le_card
  rwa [List.length_map, Fintype.card_fin] at hcard

/-- What a way down to the left comes to: it goes on until there is no new node, or fails. -/
structure Descends (replies : Replies) (key value : TypeName) (stack visited : List Address)
    (trace : List Exchange) (result : Except SessionError (List Address × List Address))
    (trace' : List Exchange) (below : List Address) : Prop where
  descent : Descent visited below
  asked : asked trace' = DebugLink.asked trace ++ (descents below).map (Visit.expression key value)
  found : ∀ found, result = .ok found → found = (below ++ stack, below ++ visited)
  failed : ∀ error, result = .error error → ∃ address ∈ below,
    ¬replies.Obtains (NodePart.left.expression key value address)

namespace Descends

variable {replies} {trace₁ trace' : List Exchange} {error : SessionError}
  {result : Except SessionError (List Address × List Address)}

/-- A way down that meets no new node ends there. -/
theorem stop (hvisited : visited.Nodup) :
    Descends replies key value stack visited trace (.ok (stack, visited)) trace [] :=
  ⟨.nil hvisited, by simp [descents], by simp, nofun⟩

/-- A node is passed. -/
theorem pass (hzero : address ≠ 0) (hasked : DebugLink.asked trace₁ = DebugLink.asked trace ++
      [NodePart.left.expression key value address])
    (h : Descends replies key value (address :: stack) (address :: visited) trace₁ result trace'
      below) :
    Descends replies key value stack visited trace result trace' (below ++ [address]) where
  descent := h.descent.snoc hzero
  asked := by
    rw [h.asked, hasked, descents_append, List.map_cons, List.append_assoc]
    rfl
  found found hfound := by simp [h.found found hfound]
  failed error herror := by
    obtain ⟨failing, hmem, hfailing⟩ := h.failed error herror
    exact ⟨failing, List.mem_append_left _ hmem, hfailing⟩

/-- The link of a node cannot be had. -/
theorem fail (hvisited : (address :: visited).Nodup) (hzero : address ≠ 0)
    (hasked : DebugLink.asked trace' = DebugLink.asked trace ++
      [NodePart.left.expression key value address])
    (hfailing : ¬replies.Obtains (NodePart.left.expression key value address)) :
    Descends replies key value stack visited trace (.error error) trace' [address] :=
  ⟨⟨hvisited, by simpa using hzero.symm⟩, hasked, nofun, fun _ _ ↦ ⟨address, by simp, hfailing⟩⟩

end Descends

/-- A way down to the left comes to its end, because it passes no address twice. -/
theorem ensures_descend (key value : TypeName) {fuel : Nat} {current : Option Address}
    (hvisited : visited.Nodup) (hfuel : addressCount < fuel + visited.length) (walk : Walk)
    (trace : List Exchange) (s : Session) :
    Keeping.Ensures replies.responder (descend fuel current stack visited) walk trace s
      fun result walk' trace' _ ↦ walk'.nodes = walk.nodes ∧
        ∃ below, Descends replies key value stack visited trace result trace' below := by
  induction fuel generalizing current stack visited walk trace s with
  | zero =>
    have hlength := length_le_addressCount hvisited
    omega
  | succ fuel ih =>
    cases current with
    | none =>
      unfold descend
      exact Keeping.ensures_pure ⟨rfl, [], .stop hvisited⟩
    | some address =>
      unfold descend
      split_ifs with hknown
      · exact Keeping.ensures_pure ⟨rfl, [], .stop hvisited⟩
      obtain ⟨hzero, hnew⟩ := not_or.mp hknown
      have hvisited' : (address :: visited).Nodup :=
        List.nodup_cons.mpr ⟨by simpa using hnew, hvisited⟩
      refine Keeping.ensures_bind (ensures_followLink replies _ walk trace s) ?_ ?_
      · rintro left walk₁ trace₁ s₁ ⟨-, hnodes, hasks⟩
        refine (ih hvisited' (by simp only [List.length_cons]; omega) walk₁ trace₁ s₁).mono ?_
        rintro result walk' trace' s' ⟨hnodes', below, hdescends⟩
        exact ⟨hnodes'.trans hnodes, below ++ [address], hdescends.pass hzero hasks.asked⟩
      · rintro error walk₁ trace₁ s₁ ⟨hlink, hnodes, hasks⟩
        exact ⟨hnodes, [address], .fail hvisited' hzero hasks.asked (replies.not_obtains hlink)⟩

/-- What listing nodes comes to: its visits and nodes. It fails only if something that it asks for
cannot be had. -/
def Lists (replies : Replies) (key value : TypeName) (count : Nat) (stack visited : List Address)
    (trace : List Exchange) (result : Except SessionError Unit) (trace' : List Exchange)
    (nodes : List MapNode) : Prop :=
  ∃ visits, asked trace' = asked trace ++ visits.map (Visit.expression key value) ∧
    Listing replies key value count stack visited result visits nodes ∧
    ∀ error, result = .error error → ∃ visit ∈ visits,
      ¬replies.Obtains (visit.expression key value)

/-- A walk that lists up to a number of nodes comes to its end. -/
theorem ensures_listNodes (hscalar : replies.ScalarMembers key value) {count : Nat}
    {current : Option Address} (hunderway : Underway stack visited) (walk : Walk)
    (trace : List Exchange) (s : Session) :
    Keeping.Ensures replies.responder
      (listNodes (build limit (depth + 1)) key value count current stack visited) walk trace s
      fun result walk' trace' _ ↦ ∃ nodes, walk'.nodes = walk.nodes ++ nodes ∧
        Lists replies key value count stack visited trace result trace' nodes := by
  induction count generalizing current stack visited walk trace s with
  | zero =>
    unfold listNodes
    exact Keeping.ensures_pure ⟨[], by simp, [], by simp, .zero, nofun⟩
  | succ count ih =>
    unfold listNodes
    refine Keeping.ensures_bind (ensures_descend replies key value hunderway.once (by omega)
      walk trace s) ?_ ?_
    swap
    · rintro error walk₁ trace₁ s₁ ⟨hnodes, below, hdescends⟩
      obtain ⟨failing, hmem, hfailing⟩ := hdescends.failed error rfl
      refine ⟨[], by simpa using hnodes, descents below, hdescends.asked,
        .failed (.descents hunderway hdescends.descent) (by simp) (by simp), fun _ _ ↦ ?_⟩
      exact ⟨⟨failing, .left⟩, mem_descents.mpr ⟨hmem, rfl⟩, hfailing⟩
    rintro found walk₁ trace₁ s₁ ⟨hnodes, below, hdescends⟩
    obtain rfl := hdescends.found found rfl
    cases hstack : below ++ stack with
    | nil =>
      obtain ⟨rfl, rfl⟩ := List.append_eq_nil_iff.mp hstack
      exact Keeping.ensures_pure ⟨[], by simpa using hnodes, [], hdescends.asked, .done, nofun⟩
    | cons address rest =>
      have hbelow := hdescends.descent
      dsimp only
      -- The key.
      refine Keeping.ensures_bind (ensures_member replies (hscalar address).1 walk₁ trace₁ s₁) ?_ ?_
      swap
      · rintro error walk₂ trace₂ s₂ ⟨hfirst, hnodes₂, hasks₂⟩
        refine ⟨[], by simp [hnodes, hnodes₂], _, ?_, .stopped [.first] hunderway hbelow hstack
          (by decide) (by decide) (by decide) (by simp), fun _ _ ↦ ?_⟩
        · simp [hasks₂.asked, hdescends.asked, Visit.expression]
        · exact ⟨⟨address, .first⟩, by simp, replies.not_obtains_of_watch hfirst⟩
      rintro first walk₂ trace₂ s₂ ⟨hfirst, hnodes₂, hasks₂⟩
      -- The value.
      refine Keeping.ensures_bind (ensures_member replies (hscalar address).2 walk₂ trace₂ s₂) ?_ ?_
      swap
      · rintro error walk₃ trace₃ s₃ ⟨hsecond, hnodes₃, hasks₃⟩
        have hfailing := replies.not_obtains_of_watch hsecond
        refine ⟨[], by simp [hnodes, hnodes₂, hnodes₃], _, ?_, .stopped [.first, .second] hunderway
          hbelow hstack (by decide) (by decide) (by decide) fun _ ↦ hfailing, fun _ _ ↦ ?_⟩
        · simp [hasks₃.asked, hasks₂.asked, hdescends.asked, Visit.expression]
        · exact ⟨⟨address, .second⟩, by simp, hfailing⟩
      rintro second walk₃ trace₃ s₃ ⟨hsecond, hnodes₃, hasks₃⟩
      have htold : replies.Tells key value ⟨address, first, second⟩ := ⟨hfirst.symm, hsecond.symm⟩
      -- The node is listed, and stays so if its link to the right cannot be had.
      refine Keeping.ensures_bind_modify (Keeping.ensures_bind (ensures_followLink replies
        (NodePart.right.expression key value address) _ trace₃ s₃) ?_ ?_)
      swap
      · rintro error walk₄ trace₄ s₄ ⟨hright, hnodes₄, hasks₄⟩
        refine ⟨[⟨address, first, second⟩], by simp [hnodes₄, hnodes₃, hnodes₂, hnodes], _, ?_,
          .cons hunderway hbelow hstack htold (.failed .nil (by simp) (by simp)), fun _ _ ↦ ?_⟩
        · simp [hasks₄.asked, hasks₃.asked, hasks₂.asked, hdescends.asked, Visit.expression,
            MapNode.address]
        · exact ⟨⟨address, .right⟩, by simp [MapNode.address], replies.not_obtains hright⟩
      rintro right walk₄ trace₄ s₄ ⟨-, hnodes₄, hasks₄⟩
      refine (ih (hunderway.pop hbelow hstack) walk₄ trace₄ s₄).mono ?_
      rintro result walk' trace' s' ⟨nodes, hnodes', visits, hasked, hlisting, hfailed⟩
      refine ⟨⟨address, first, second⟩ :: nodes,
        by simp [hnodes', hnodes₄, hnodes₃, hnodes₂, hnodes], _, ?_,
        .cons hunderway hbelow hstack htold hlisting, fun error herror ↦ ?_⟩
      · simp [hasked, hasks₄.asked, hasks₃.asked, hasks₂.asked, hdescends.asked, Visit.expression,
          MapNode.address]
      · obtain ⟨visit, hmem, hfailing⟩ := hfailed error herror
        exact ⟨visit, by simp [hmem], hfailing⟩

/-- A walk asks for the root and then makes the visits of a listing. -/
theorem ensures_walkTree (hscalar : replies.ScalarMembers key value) (expression : String)
    (trace : List Exchange) (s : Session) :
    Keeping.Ensures replies.responder
      (walkTree (build limit (depth + 1)) limit expression key value) ⟨[], [], []⟩ trace s
      fun result walk trace' _ ↦ ∃ visits, asked trace' = asked trace ++
          Expression.mapRoot expression :: visits.map (Visit.expression key value) ∧
        Listing replies key value limit [] [] result visits walk.nodes ∧
        ∀ error, result = .error error → ∃ e ∈ asked trace', ¬replies.Obtains e := by
  refine Keeping.ensures_bind (ensures_followLink replies _ _ trace s) ?_ ?_
  · rintro root walk₁ trace₁ s₁ ⟨-, hnodes, hasks⟩
    refine (ensures_listNodes replies hscalar .nil walk₁ trace₁ s₁).mono ?_
    rintro result walk trace' s' ⟨nodes, hnodes', visits, hasked, hlisting, hfailed⟩
    obtain rfl : walk.nodes = nodes := by simpa [hnodes] using hnodes'
    have hall : asked trace' = asked trace ++
        Expression.mapRoot expression :: visits.map (Visit.expression key value) := by
      simp [hasked, hasks.asked]
    refine ⟨visits, hall, hlisting, fun error herror ↦ ?_⟩
    obtain ⟨visit, hmem, hfailing⟩ := hfailed error herror
    exact ⟨_, by simp [hall, List.mem_map_of_mem hmem], hfailing⟩
  · rintro error walk₁ trace₁ s₁ ⟨hlink, hnodes, hasks⟩
    refine ⟨[], by simp [hasks.asked], ?_, fun _ _ ↦ ⟨_, by simp [hasks.asked],
      replies.not_obtains hlink⟩⟩
    rw [hnodes]
    exact .failed .nil (by simp) (by simp)

end Session

end DebugLink
