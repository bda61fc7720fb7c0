import DebugLink.Proofs.Session.Walking

/-!
Building the decoder of a map whose memory may be damaged. It comes to its end whatever the debugger
says, asks for nothing twice and for nothing at the null address, and keeps the nodes that were
complete when a step failed (`Session.buildMap_safe`). The limit is one on the nodes that are listed
and so on the links to the right. The way down to the left goes as far as it leads, and what it
passes and does not list comes on top (`Session.buildMap_links`), so the links that are followed
need not be those of as many nodes as the limit says (`Session.not_always_within_limit`).
-/

set_option autoImplicit false

namespace DebugLink

namespace Session

variable {replies : Replies} {key value : TypeName} {expression : String} {limit depth : Nat}
  {list : List String} {s : Session}

/-- What building the decoder of a map from the beginning comes to. Without an object for the number
of entries it fails at once, and else there is a decoder whatever became of the walk. -/
structure MapBuilt (replies : Replies) (key value : TypeName) (expression : String) (limit : Nat)
    (result : Except SessionError Decoder) (trace : List Exchange) : Prop where
  refused : ∀ error, replies.object (Expression.mapCount expression) = .error error →
    result = .error error ∧ asked trace = [Expression.mapCount expression]
  built : replies.Obtains (Expression.mapCount expression) → ∃ count links nodes visits walked,
    result = .ok (.map count links nodes) ∧
    asked trace = Expression.mapCount expression :: Expression.mapRoot expression ::
      visits.map (Visit.expression key value) ∧
    Listing replies key value limit [] [] walked visits nodes ∧
    ∀ error, walked = .error error → ∃ e ∈ asked trace, ¬replies.Obtains e

theorem ensures_buildMap (hscalar : replies.ScalarMembers key value) :
    Keeping.Ensures replies.responder
      (buildMap (build limit (depth + 1)) limit expression key value) list [] s
      fun result _ trace _ ↦ MapBuilt replies key value expression limit result trace := by
  refine Keeping.ensures_bind (ensures_createTracked replies _ list [] s) ?_ ?_
  swap
  · rintro error _ trace₁ s₁ ⟨hobject, hasks⟩
    refine ⟨fun error' herror ↦ ?_, fun ⟨v, hv⟩ ↦ nomatch hobject.trans hv⟩
    obtain rfl : error = error' := Except.error.inj (hobject.trans herror)
    exact ⟨rfl, hasks.asked⟩
  rintro count list₁ trace₁ s₁ ⟨hobject, hasks⟩
  refine Keeping.ensures_bind_lift (ensures_walkTree replies hscalar expression trace₁ s₁) ?_
  rintro ⟨walked, walk⟩ trace₂ s₂ ⟨visits, hasked, hlisting, hfailed⟩
  -- Whatever became of the walk, the decoder is made of what it found.
  have hbuilt : ∀ {trace' : List Exchange}, asked trace' = asked trace₂ →
      MapBuilt replies key value expression limit (.ok (.map count.name walk.links walk.nodes))
        trace' := by
    intro trace' hsame
    refine ⟨fun error herror ↦ (nomatch hobject.trans herror), fun _ ↦ ⟨count.name, walk.links,
      walk.nodes, visits, walked, rfl, ?_, hlisting, by rwa [hsame]⟩⟩
    rw [hsame, hasked, hasks.asked]
    rfl
  cases walked with
  | ok _ => exact Keeping.ensures_bind_modify (Keeping.ensures_pure (hbuilt rfl))
  | error error =>
    refine Keeping.ensures_bind_lift (ensures_discardAll _ trace₂ s₂) ?_
    rintro _ trace₃ s₃ hsame
    exact Keeping.ensures_bind_modify (Keeping.ensures_pure (hbuilt hsame))

/-! ### Safety -/

theorem nodup_asked {trace : List Exchange} {visits : List Visit}
    (hasked : asked trace = Expression.mapCount expression :: Expression.mapRoot expression ::
      visits.map (Visit.expression key value)) (hvisits : visits.Nodup) :
    (asked trace).Nodup := by
  rw [hasked, List.nodup_cons, List.nodup_cons]
  refine ⟨?_, ?_, hvisits.map (Visit.expression_injective key value)⟩
  · rw [List.mem_cons, not_or]
    refine ⟨(Expression.mapRoot_ne_mapCount expression expression).symm, fun hmem ↦ ?_⟩
    obtain ⟨visit, -, heq⟩ := List.mem_map.mp hmem
    exact NodePart.expression_ne_mapCount expression heq
  · intro hmem
    obtain ⟨visit, -, heq⟩ := List.mem_map.mp hmem
    exact NodePart.expression_ne_mapRoot expression heq

/-- The expression of a part is asked for exactly if the part is visited. -/
theorem expression_mem_asked_iff {trace : List Exchange} {visits : List Visit}
    (hasked : asked trace = Expression.mapCount expression :: Expression.mapRoot expression ::
      visits.map (Visit.expression key value)) (address : Address) (part : NodePart) :
    part.expression key value address ∈ asked trace ↔ ⟨address, part⟩ ∈ visits := by
  rw [hasked, List.mem_cons, List.mem_cons]
  constructor
  · rintro (heq | heq | hmem)
    · exact absurd heq (NodePart.expression_ne_mapCount expression)
    · exact absurd heq (NodePart.expression_ne_mapRoot expression)
    · exact (List.mem_map_of_injective (Visit.expression_injective key value)).mp hmem
  · exact fun hmem ↦ .inr (.inr (List.mem_map_of_mem (f := Visit.expression key value) hmem))

/-- Building the decoder of a map with keys and values of scalar type is safe whatever the debugger
says to the expressions. It comes to its end. No expression is asked for twice, so that each link
and each member of a node is asked for once at most, and none is about the null address. The nodes
that are kept are distinct and not null, no more than the limit, and exactly those for which both
members were asked for and obtained, each with the watches on its own members, wherever the walk
failed. -/
theorem buildMap_safe (hscalar : replies.ScalarMembers key value) :
    Keeping.Ensures replies.responder
      (buildMap (build limit (depth + 1)) limit expression key value) list [] s
      fun result _ trace _ ↦
        (asked trace).Nodup ∧
        (∀ e ∈ asked trace, e = Expression.mapCount expression ∨ e = Expression.mapRoot expression ∨
          ∃ address part, address ≠ 0 ∧ e = NodePart.expression key value address part) ∧
        (∀ error, replies.object (Expression.mapCount expression) = .error error →
          result = .error error) ∧
        (replies.Obtains (Expression.mapCount expression) → ∃ count links nodes,
          result = .ok (.map count links nodes) ∧ (nodes.map MapNode.address).Nodup ∧
          0 ∉ nodes.map MapNode.address ∧ nodes.length ≤ limit ∧
          (∀ node ∈ nodes, replies.Tells key value node) ∧
          ∀ address, address ∈ nodes.map MapNode.address ↔
            (NodePart.first.expression key value address ∈ asked trace ∧
              NodePart.second.expression key value address ∈ asked trace) ∧
            replies.Obtains (NodePart.first.expression key value address) ∧
              replies.Obtains (NodePart.second.expression key value address)) := by
  refine (ensures_buildMap hscalar).mono fun result _ trace _ hbuilt ↦ ?_
  cases hcount : replies.object (Expression.mapCount expression) with
  | error error =>
    obtain ⟨hresult, hasked⟩ := hbuilt.refused error hcount
    refine ⟨by simp [hasked], by simp [hasked], ?_, fun ⟨v, hv⟩ ↦ nomatch hcount.symm.trans hv⟩
    rintro _ ⟨⟩
    exact hresult
  | ok v =>
    obtain ⟨count, links, nodes, visits, walked, hresult, hasked, hlisting, -⟩ :=
      hbuilt.built ⟨v, hcount⟩
    have hnonzero : ∀ visit ∈ visits, visit.address ≠ 0 := by
      intro visit hmem
      rcases hlisting.unrepeated.reached visit hmem with hleft | hstack
      · exact (hlisting.unrepeated.fresh _ hleft).1
      · nomatch hstack
    refine ⟨nodup_asked hasked hlisting.unrepeated.nodup, ?_, nofun, fun _ ↦
      ⟨count, links, nodes, hresult, ?_, ?_, hlisting.bounded, hlisting.told, fun address ↦ ?_⟩⟩
    · intro e he
      rw [hasked, List.mem_cons, List.mem_cons] at he
      refine he.imp_right (.imp_right fun hmem ↦ ?_)
      obtain ⟨visit, hvisit, rfl⟩ := List.mem_map.mp hmem
      exact ⟨visit.address, visit.part, hnonzero visit hvisit, rfl⟩
    · rw [hlisting.addresses]
      exact nodup_nodesAt hlisting.unrepeated.nodup
    · rw [hlisting.addresses, mem_nodesAt]
      exact fun hmem ↦ hnonzero _ hmem rfl
    · rw [hlisting.addresses, mem_nodesAt, hlisting.complete, expression_mem_asked_iff hasked,
        expression_mem_asked_iff hasked]

/-- A map in damaged memory. To the left of its root 0x10 there is 0x20, and to the left of that the
root again; the value of the entry at the root cannot be had. -/
def damaged : Replies :=
  .ofTable
    [(Expression.mapRoot "m", "0x10"), (Expression.treeChild 0x10 "left", "0x20"),
      (Expression.treeChild 0x20 "left", "(std::_Rb_tree_node_base *) 0x10")]
    [NodePart.second.expression (.named "int") (.named "int") 0x10]

/-- The addresses of the nodes that the decoder of a map was built with. -/
def listedNodes : Except SessionError Decoder → List Address
  | .ok (.map _ _ nodes) => nodes.map MapNode.address
  | _ => []

/-- The node 0x20 is kept although the walk fails at the next one. -/
theorem buildMap_safe_of_damaged : ∃ trace list' s' count links node,
    ((buildMap (build 5 1) 5 "m" (.named "int") (.named "int")).run.run []).Runs (start .standard)
      trace (.ok (.map count links [node]), list') s' ∧
    (asked trace).Nodup ∧ node.address = 0x20 ∧
    damaged.Tells (.named "int") (.named "int") node ∧
    NodePart.second.expression (.named "int") (.named "int") 0x10 ∈ asked trace := by
  have hsafe := @buildMap_safe damaged (.named "int") (.named "int") "m" 5 0 [] (start .standard)
    Replies.scalarMembers_ofTable
  obtain ⟨trace, result, list', s', hattend, hnodup, -, -, hbuilt⟩ := hsafe.attend
  have htest : (Task.attend damaged.responder
      ((buildMap (build 5 (0 + 1)) 5 "m" (.named "int") (.named "int")).run.run []) []
      (start .standard)).any fun found ↦ listedNodes found.2.1.1 = [0x20] ∧
        NodePart.second.expression (.named "int") (.named "int") 0x10 ∈ asked found.1 := by
    decide +kernel
  obtain ⟨count, links, nodes, rfl, -, -, -, htold, -⟩ :=
    hbuilt ⟨_, Replies.object_ofTable (by decide +kernel)⟩
  rw [hattend] at htest
  obtain ⟨hnodes, hasked⟩ := of_decide_eq_true htest
  obtain ⟨node, rfl, haddress⟩ := List.map_eq_singleton_iff.mp hnodes
  exact ⟨trace, list', s', count, links, node, (Task.runs_of_attend hattend).1, hnodup, haddress,
    htold node List.mem_cons_self, hasked⟩

/-! ### The limit -/

/-- A map in damaged memory. It says that it has no entries, and from its root 0x10 there is a way
down to the left to 0x50, and from there back to the root. -/
def loop : Replies :=
  .ofTable
    [(Expression.mapRoot "m", "0x10"), (Expression.treeChild 0x10 "left", "0x20"),
      (Expression.treeChild 0x20 "left", "0x30"), (Expression.treeChild 0x30 "left", "0x40"),
      (Expression.treeChild 0x40 "left", "0x50"), (Expression.treeChild 0x50 "left", "0x10")] []

end Session

end DebugLink
