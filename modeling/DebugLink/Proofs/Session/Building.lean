import DebugLink.Proofs.Session.Objects
import DebugLink.Proofs.Watch.Roots
import DebugLink.Session.Watching

/-!
What building a watch does to an account. Building keeps a list of the objects that it creates, and
that list is always what has become live by it, also when it fails (`Session.Adds`). When it
succeeds these objects are exactly the derived roots of the watch (`Session.builds_build`). The walk
through the tree of a map may fail at any step; what was found until then has become live together
with a rest that no entry uses, and this rest is discarded (`Session.adds_buildMap`).
-/

set_option autoImplicit false

namespace DebugLink

open Variable

variable {start s s' : Session} {live live' known : List String} {σ α β γ : Type}

/-! ### Operations with an account of their own -/

/-- Operations that keep something at hand also when they fail. -/
abbrev Keeping (σ α : Type) : Type :=
  ExceptT SessionError (StateT σ Task) α

namespace Keeping

/-- An operation keeps account, and so much holds of what it keeps at hand. -/
def Owns (start : Session) (live : List String) (operation : Keeping σ α) (s : Session) (kept : σ)
    (post : Except SessionError α → σ → List String → Session → Prop) : Prop :=
  (operation.run.run kept).Owns start live s fun found ↦ post found.1 found.2

variable {kept : σ} {post : Except SessionError α → σ → List String → Session → Prop}

/-- To return leaves the account and what is at hand. -/
theorem owns_pure {value : α} (h : post (.ok value) kept live s) :
    Owns start live (pure value) s kept post :=
  Task.owns_pure h

/-- A change of what is at hand is no entry in the account. -/
theorem owns_bind_modify {f : σ → σ} {next : Unit → Keeping σ α}
    (h : Owns start live (next ()) s (f kept) post) :
    Owns start live (modify f >>= next) s kept post :=
  h

/-- What a part ends with may be weakened. -/
theorem Owns.mono {operation : Keeping σ α}
    {post' : Except SessionError α → σ → List String → Session → Prop}
    (h : Owns start live operation s kept post)
    (himp : ∀ result kept' live' s', post result kept' live' s' → post' result kept' live' s') :
    Owns start live operation s kept post' :=
  Task.Owns.mono h fun found ↦ himp found.1 found.2

/-- Live objects may be taken to be different and to be what the table has grown by. -/
theorem owns_intro {operation : Keeping σ α}
    (h : live.Nodup → VariableTable.Grown start.objects s.objects live →
      Owns start live operation s kept post) : Owns start live operation s kept post :=
  Task.owns_intro h

/-- Accounts are carried on, also from a failure, with what is at hand. -/
theorem owns_bind {P : Except SessionError α → σ → List String → Session → Prop}
    {post : Except SessionError β → σ → List String → Session → Prop} {operation : Keeping σ α}
    {f : α → Keeping σ β} (h : Owns start live operation s kept P)
    (hok : ∀ value kept' live' s', P (.ok value) kept' live' s' →
      Owns start live' (f value) s' kept' post)
    (herror : ∀ e kept' live' s', P (.error e) kept' live' s' → post (.error e) kept' live' s') :
    Owns start live (operation >>= f) s kept post := by
  show ((operation.run.run kept >>= _ : Task (Except SessionError β × σ))).Owns start live s _
  refine Task.owns_bind h fun found live' s' hfound ↦ ?_
  obtain ⟨result, kept'⟩ := found
  cases result with
  | ok value => exact hok value kept' live' s' hfound
  | error e => exact Task.owns_pure (herror e kept' live' s' hfound)

/-- A task that cannot fail. -/
theorem owns_lift {task : Task α} {P : α → List String → Session → Prop}
    (h : task.Owns start live s P) :
    Owns start live (ExceptT.lift (StateT.lift task)) s kept fun result kept' live' s' ↦
      ∃ value, result = .ok value ∧ kept' = kept ∧ P value live' s' := by
  show ((task >>= fun value ↦ pure (value, kept)) >>= fun found ↦
    pure (Except.ok found.1, found.2) : Task (Except SessionError α × σ)).Owns start live s _
  refine Task.owns_bind (P := fun found live' s' ↦ found.2 = kept ∧ P found.1 live' s') ?_ ?_
  · exact Task.owns_bind h fun value _ _ hvalue ↦ Task.owns_pure ⟨rfl, hvalue⟩
  · rintro ⟨value, _⟩ live' s' ⟨rfl, hvalue⟩
    exact Task.owns_pure ⟨value, rfl, rfl, hvalue⟩

/-- An operation that knows nothing of what is kept. -/
theorem owns_inBuild {kept : List String} {operation : Operation α}
    {P : Except SessionError α → List String → Session → Prop}
    (h : operation.run.Owns start live s P) :
    Owns start live (Session.inBuild operation) s kept fun result kept' live' s' ↦
      kept' = kept ∧ P result live' s' :=
  Task.owns_bind h fun _ _ _ hresult ↦ Task.owns_pure ⟨rfl, hresult⟩

end Keeping

namespace Session

open Keeping

/-! ### Parts of building -/

/-- A part of building keeps account, and its list grows by what becomes live by it. If it succeeds,
so much holds of its value and of what became live. -/
def Adds (part : Build α) (s : Session) (post : α → List String → Session → Prop) : Prop :=
  ∀ list, Owns s [] part s list fun result list' live s' ↦
    list' = list ++ live ∧ ∀ value, result = .ok value → post value live s'

section Rules

variable {list : List String} {part : Build α} {P post : α → List String → Session → Prop}

/-- What a part of building does in a larger account. -/
theorem Adds.frame (h : Adds part s post) :
    Owns start live part s list fun result list' live' s' ↦ ∃ added, live' = live ++ added ∧
      list' = list ++ added ∧ VariableTable.Grown s.objects s'.objects added ∧
        ∀ value, result = .ok value → post value added s' := by
  refine (h _).adds.frame.mono fun found live' s' ↦ ?_
  rintro ⟨added, rfl, hgrown, hlist, hpost⟩
  exact ⟨added, rfl, hlist, hgrown, hpost⟩

/-- What a part succeeds with may be weakened. -/
theorem Adds.mono (h : Adds part s P) (himp : ∀ value live s',
    VariableTable.Grown s.objects s'.objects live → P value live s' → post value live s') :
    Adds part s post := by
  intro list
  refine h.frame.mono ?_
  rintro result _ _ s' ⟨added, rfl, rfl, hgrown, hpost⟩
  exact ⟨rfl, fun value hvalue ↦ himp value _ s' hgrown (hpost value hvalue)⟩

/-- To return makes nothing live. -/
theorem adds_pure {value : α} (h : post value [] s) : Adds (pure value) s post := by
  intro list
  refine owns_pure ⟨(List.append_nil list).symm, ?_⟩
  rintro _ ⟨⟩
  exact h

/-- One part after another: what becomes live by both becomes live. -/
theorem Adds.bind {f : α → Build β} {post : β → List String → Session → Prop} (h : Adds part s P)
    (hf : ∀ value live s', VariableTable.Grown s.objects s'.objects live → P value live s' →
      Adds (f value) s' fun value' live' ↦ post value' (live ++ live')) :
    Adds (part >>= f) s post := by
  intro list
  refine owns_bind h.frame ?_ ?_
  · rintro value _ _ s₁ ⟨added, rfl, rfl, hgrown, hpost⟩
    refine (hf value _ s₁ hgrown (hpost value rfl)).frame.mono ?_
    rintro result _ _ s' ⟨added', rfl, rfl, -, hpost'⟩
    exact ⟨by simp, hpost'⟩
  · rintro e _ _ s' ⟨added, rfl, rfl, -, -⟩
    exact ⟨rfl, by simp⟩

/-- A part and an operation that changes nothing about what became live by it. -/
theorem Adds.bind_inBuild {operation : α → Operation β} {f : α → β → Build γ}
    {Q : α → β → List String → Session → Prop} {post : γ → List String → Session → Prop}
    (h : Adds part s P)
    (hoperation : ∀ value live s', VariableTable.Grown s.objects s'.objects live → P value live s' →
      (operation value).run.Owns s live s' fun result live' s₂ ↦
        live' = live ∧ ∀ value', result = .ok value' → Q value value' live s₂)
    (hf : ∀ value value' live s', VariableTable.Grown s.objects s'.objects live →
      Q value value' live s' →
        Adds (f value value') s' fun value'' live' ↦ post value'' (live ++ live')) :
    Adds (part >>= fun value ↦ inBuild (operation value) >>= f value) s post := by
  intro list
  refine owns_bind h.frame ?_ ?_
  · rintro value _ _ s₁ ⟨added, rfl, rfl, hgrown, hpost⟩
    refine owns_bind (owns_inBuild (hoperation value _ s₁ hgrown (hpost value rfl))) ?_ ?_
    · rintro value' _ _ s₂ ⟨rfl, rfl, hpost'⟩
      refine owns_intro fun _ hgrown' ↦ ?_
      refine (hf value value' _ s₂ hgrown' (hpost' value' rfl)).frame.mono ?_
      rintro result _ _ s' ⟨added', rfl, rfl, -, hpost''⟩
      exact ⟨by simp, hpost''⟩
    · rintro e _ _ s' ⟨rfl, rfl, -⟩
      exact ⟨rfl, by simp⟩
  · rintro e _ _ s' ⟨added, rfl, rfl, -, -⟩
    exact ⟨rfl, by simp⟩

end Rules

/-- Creating an object for an expression makes one object live, which lists nothing and is in the
table if that succeeds. -/
theorem adds_createTracked (s : Session) (expression : String) :
    Adds (createTracked expression) s fun v live s' ↦
      live = [v.name] ∧ s'.objects.get? v.name = some v ∧ v.children = none := by
  intro list
  refine owns_bind (owns_inBuild (adds_createObject s expression).frame) ?_ ?_
  · rintro v _ _ s₁ ⟨rfl, added, rfl, -, hok, -⟩
    obtain ⟨rfl, hstored⟩ := hok v rfl
    refine owns_bind_modify (owns_pure ⟨rfl, ?_⟩)
    rintro _ ⟨⟩
    exact ⟨rfl, hstored⟩
  · rintro e _ _ s' ⟨rfl, added, rfl, -, -, herror⟩
    obtain rfl := herror e rfl
    exact ⟨by simp, by simp⟩

/-- Whoever builds a watch for an object creates the derived roots of that watch, and the watch can
be read. -/
def Builds (builder : Builder) : Prop :=
  ∀ (v : Variable) (expression : String) (s : Session), v.name ∈ s.objects.known →
    Adds (builder v expression) s fun w live s' ↦
      w.var = v.name ∧ live.Perm w.derivedRoots ∧ w.Stands s'.objects.known

/-- A watch for an object of its own. -/
theorem adds_buildFrom {builder : Builder} (hbuilder : Builds builder) (s : Session)
    (expression : String) :
    Adds (buildFrom builder expression) s fun w live s' ↦
      live.Perm w.roots ∧ w.Stands s'.objects.known := by
  refine (adds_createTracked s expression).bind ?_
  rintro v _ s₁ hgrown ⟨rfl, -⟩
  refine (hbuilder v expression s₁ (hgrown.live_subset List.mem_cons_self)).mono ?_
  rintro w live s' - ⟨hvar, hlive, hstands⟩
  exact ⟨hvar ▸ hlive.cons v.name, hstands⟩

/-! ### Vectors -/

/-- Building elements makes their derived roots live, if the children are known. -/
theorem adds_buildElements {builder : Builder} (hbuilder : Builds builder) (expression : String)
    (children : List Variable) (s : Session)
    (hknown : ∀ child ∈ children, child.name ∈ s.objects.known) :
    Adds (buildElements builder expression children) s fun elements live s' ↦
      elements.map Watch.var = children.map Variable.name ∧
        live.Perm (elements.flatMap Watch.derivedRoots) ∧
          ∀ element ∈ elements, element.Stands s'.objects.known := by
  induction children generalizing s with
  | nil => exact adds_pure ⟨rfl, .nil, by simp⟩
  | cons child rest ih =>
    refine (hbuilder child _ s (hknown child List.mem_cons_self)).bind ?_
    rintro element live s₁ hgrown ⟨hvar, hlive, hstands⟩
    refine (ih s₁ fun other hother ↦
      hgrown.subset (hknown other (List.mem_cons_of_mem _ hother))).bind ?_
    rintro elements live' s' hgrown' ⟨hvars, hlives, hall⟩
    refine adds_pure ⟨by simp [hvar, hvars], by simpa using hlive.append hlives, ?_⟩
    intro other hother
    rcases List.mem_cons.mp hother with rfl | hmem
    · exact hstands.mono fun name hname _ ↦ hgrown'.subset hname
    · exact hall other hmem

/-- What is expected of a decoder that was built: the objects that became live are its derived
roots, and its members can be read and go with them. -/
structure Built (decoder : Decoder) (live known : List String) : Prop where
  roots : live.Perm (Watch.mk "" "" decoder).derivedRoots
  members : ∀ m ∈ decoder.members, m.Stands known ∧ rootOf m.var ∈ live

/-- Building a vector gives a decoder whose derived roots have become live. -/
theorem adds_buildVector {builder : Builder} (hbuilder : Builds builder) (limit : Nat)
    (expression : String) (s : Session) :
    Adds (buildVector builder limit expression) s fun decoder live s' ↦
      Built decoder live s'.objects.known := by
  refine (adds_createTracked s _).bind ?_
  rintro length _ s₁ - ⟨rfl, -⟩
  dsimp only
  split_ifs
  · exact adds_pure ⟨by simp [Watch.derivedRoots_vector], by simp [Decoder.members]⟩
  · refine (adds_createTracked s₁ _).bind_inBuild (Q := fun array children live s' ↦
      live = [array.name] ∧ ∀ child ∈ children, rootOf child.name = array.name ∧
        child.name ∈ s'.objects.known) ?_ ?_
    · rintro array _ s₂ hgrown ⟨rfl, hstored, hchildless⟩
      refine (owns_listChildren List.mem_cons_self hstored hchildless).mono ?_
      rintro result _ s' ⟨rfl, -, hlisted⟩
      refine ⟨rfl, fun children hchildren ↦ ⟨rfl, fun child hchild ↦ ?_⟩⟩
      obtain ⟨hbelow, hknown⟩ := hlisted children hchildren child hchild
      rw [rootOf_of_isBelow hbelow]
      exact ⟨rootOf_eq_self (hgrown.roots _ List.mem_cons_self), hknown⟩
    · rintro array children _ s₂ hgrown ⟨rfl, hlisted⟩
      refine (adds_buildElements hbuilder expression _ s₂ fun child hchild ↦ ?_).bind ?_
      · exact (hlisted child (List.mem_mergeSort.mp hchild)).2
      · rintro elements live s' - ⟨hvars, hlive, hall⟩
        refine adds_pure ⟨by simpa [Watch.derivedRoots_vector] using hlive, fun m hm ↦
          ⟨hall m hm, ?_⟩⟩
        have hvar : m.var ∈ (children.mergeSort _).map Variable.name :=
          hvars ▸ List.mem_map_of_mem hm
        obtain ⟨child, hchild, heq⟩ := List.mem_map.mp hvar
        rw [← heq, (hlisted child (List.mem_mergeSort.mp hchild)).1]
        simp

/-! ### Walking through the tree of a map -/

/-- Whether the watches at a node can be read and are for objects that are live. -/
def NodeStands (live known : List String) (node : MapNode) : Prop :=
  (node.key.Stands known ∧ node.key.var ∈ live) ∧ node.value.Stands known ∧ node.value.var ∈ live

/-- What a walk has found is what became live, apart from a rest that belongs to no node. -/
structure Found (walk : Walk) (live known rest : List String) : Prop where
  created : walk.created = live
  accounted : live.Perm (walk.links ++ walk.nodes.flatMap MapNode.roots ++ rest)
  nodes : ∀ node ∈ walk.nodes, NodeStands live known node

/-- A node stands where more is live and more is known. -/
theorem NodeStands.mono {node : MapNode} {live' known' : List String}
    (h : NodeStands live known node) (hlive : live ⊆ live') (hknown : known ⊆ known') :
    NodeStands live' known' node :=
  ⟨⟨h.1.1.mono fun _ hname _ ↦ hknown hname, hlive h.1.2⟩,
    h.2.1.mono fun _ hname _ ↦ hknown hname, hlive h.2.2⟩

/-- What a walk has found it keeps while more becomes live. -/
theorem Found.add {walk : Walk} {rest known' : List String} (h : Found walk live known rest)
    (added : List String) (hknown : known ⊆ known') :
    Found { walk with created := walk.created ++ added } (live ++ added) known'
      (rest ++ added) where
  created := congrArg (· ++ added) h.created
  accounted := by simpa using h.accounted.append_right added
  nodes := fun node hnode ↦ (h.nodes node hnode).mono (List.subset_append_left _ _) hknown

/-- The order of the rest does not matter. -/
theorem Found.of_perm {walk : Walk} {rest rest' : List String} (h : Found walk live known rest)
    (hperm : rest.Perm rest') : Found walk live known rest' :=
  ⟨h.created, h.accounted.trans (hperm.append_left _), h.nodes⟩

/-- A link that is left over is recorded. -/
theorem Found.link {walk : Walk} {name : String} (h : Found walk live known [name]) :
    Found { walk with links := walk.links ++ [name] } live known [] where
  created := h.created
  accounted := by
    rw [List.perm_iff_count]
    intro other
    have hcount := h.accounted.count_eq other
    simp only [List.count_append, List.count_nil] at hcount ⊢
    omega
  nodes := h.nodes

/-- A node whose objects are left over is recorded. -/
theorem Found.node {walk : Walk} {node : MapNode} (h : Found walk live known node.roots)
    (hnode : NodeStands live known node) :
    Found { walk with nodes := walk.nodes ++ [node] } live known [] where
  created := h.created
  accounted := by simpa using h.accounted
  nodes := by
    intro other hother
    rcases List.mem_append.mp hother with hold | hnew
    · exact h.nodes other hold
    · exact List.mem_singleton.mp hnew ▸ hnode

/-- A part of a walk: begun with nothing left over it ends with what it has found, and with nothing
left over if it succeeds. -/
def Finds (part : Walking α) : Prop :=
  ∀ (start s : Session) (live : List String) (walk : Walk), Found walk live s.objects.known [] →
    Owns start live part s walk fun result walk' live' s' ↦
      ∃ rest, Found walk' live' s'.objects.known rest ∧ ∀ value, result = .ok value → rest = []

/-- To return finds nothing. -/
theorem finds_pure (value : α) : Finds (pure value) :=
  fun _ _ _ _ hfound ↦ owns_pure ⟨[], hfound, fun _ _ ↦ rfl⟩

/-- What the second part finds is added to what the first one has found. -/
theorem Finds.bind {part : Walking α} {f : α → Walking β} (h : Finds part)
    (hf : ∀ value, Finds (f value)) : Finds (part >>= f) := by
  intro start s live walk hfound
  refine owns_bind (h start s live walk hfound) ?_ ?_
  · rintro value walk' live' s' ⟨rest, hfound', hnone⟩
    obtain rfl := hnone value rfl
    exact hf value start s' live' walk' hfound'
  · rintro e walk' live' s' ⟨rest, hfound', -⟩
    exact ⟨rest, hfound', by simp⟩

/-- A part of building within a walk. -/
theorem owns_inWalk {part : Build α} {P : α → List String → Session → Prop} {walk : Walk}
    (h : Adds part s P) :
    Owns start live (inWalk part) s walk fun result walk' live' s' ↦ ∃ added,
      live' = live ++ added ∧ walk' = { walk with created := walk.created ++ added } ∧
        VariableTable.Grown s.objects s'.objects added ∧
          ∀ value, result = .ok value → P value added s' := by
  refine Task.owns_bind h.frame ?_
  rintro ⟨result, created⟩ _ s' ⟨added, rfl, rfl, hgrown, hpost⟩
  exact Task.owns_pure ⟨added, rfl, rfl, hgrown, hpost⟩

/-- A walk that never ends has nothing to show. -/
theorem finds_endless : Finds (ExceptT.lift (StateT.lift Task.endless) : Walking α) := by
  intro start s live walk _
  refine (owns_lift (P := fun _ _ _ ↦ False) Task.owns_endless).mono ?_
  rintro _ _ _ _ ⟨_, -, -, hfalse⟩
  exact hfalse.elim

/-- Following a link makes at most one object live, which counts as a link. -/
theorem finds_followLink (expression : String) : Finds (followLink expression) := by
  intro start s live walk hfound
  refine owns_bind (owns_inWalk (adds_createTracked s expression)) ?_ ?_
  · rintro link _ _ s₁ ⟨added, rfl, rfl, hgrown, hok⟩
    obtain ⟨rfl, -⟩ := hok link rfl
    exact owns_bind_modify (owns_pure ⟨[], (hfound.add _ hgrown.subset).link, by simp⟩)
  · rintro e _ _ s' ⟨added, rfl, rfl, hgrown, -⟩
    exact ⟨_, hfound.add _ hgrown.subset, by simp⟩

/-- Going down finds the links on the way. -/
theorem finds_descend (fuel : Nat) (current : Option Address) (stack visited : List Address) :
    Finds (descend fuel current stack visited) := by
  induction fuel generalizing current stack visited with
  | zero =>
    cases current with
    | none => exact finds_pure _
    | some address => exact finds_endless
  | succ fuel ih =>
    cases current with
    | none => exact finds_pure _
    | some address =>
      unfold descend
      split_ifs
      · exact finds_pure _
      · exact (finds_followLink _).bind fun left ↦ ih left _ _

/-- The watches at a node, and what follows. If the second one cannot be built, what became live by
the first one is left over. -/
theorem finds_node {builder : Builder} (hbuilder : Builds builder) (address : Address)
    (first second : String) {next : Walking α} (hnext : Finds next) :
    Finds (do
      let key ← inWalk (buildFrom builder first)
      let value ← inWalk (buildFrom builder second)
      modify fun walk ↦ { walk with nodes := walk.nodes ++ [⟨address, key, value⟩] }
      next) := by
  intro start s live walk hfound
  refine owns_bind (owns_inWalk (adds_buildFrom hbuilder s first)) ?_ ?_
  · rintro key _ _ s₁ ⟨added, rfl, rfl, hgrown, hok⟩
    obtain ⟨hlive, hstands⟩ := hok key rfl
    have hkey := hfound.add added hgrown.subset
    refine owns_bind (owns_inWalk (adds_buildFrom hbuilder s₁ second)) ?_ ?_
    · rintro value _ _ s₂ ⟨added', rfl, rfl, hgrown', hok'⟩
      obtain ⟨hlive', hstands'⟩ := hok' value rfl
      have hrest := (hkey.add _ hgrown'.subset).of_perm
        (show ([] ++ added ++ added').Perm (MapNode.mk address key value).roots from
          hlive.append hlive')
      refine owns_bind_modify (hnext start s₂ _ _ (hrest.node ⟨⟨?_, ?_⟩, hstands', ?_⟩))
      · exact hstands.mono fun name hname _ ↦ hgrown'.subset hname
      · have hmem : key.var ∈ added := hlive.mem_iff.mpr List.mem_cons_self
        exact List.mem_append_left _ (List.mem_append_right _ hmem)
      · exact List.mem_append_right _ (hlive'.mem_iff.mpr List.mem_cons_self)
    · rintro e _ _ s' ⟨added', rfl, rfl, hgrown', -⟩
      exact ⟨_, hkey.add _ hgrown'.subset, by simp⟩
  · rintro e _ _ s' ⟨added, rfl, rfl, hgrown, -⟩
    exact ⟨_, hfound.add _ hgrown.subset, by simp⟩

/-- Listing nodes finds their members and the links to their right. -/
theorem finds_listNodes {builder : Builder} (hbuilder : Builds builder) (key value : TypeName)
    (count : Nat) (current : Option Address) (stack visited : List Address) :
    Finds (listNodes builder key value count current stack visited) := by
  induction count generalizing current stack visited with
  | zero => exact finds_pure ()
  | succ count ih =>
    refine (finds_descend _ current stack visited).bind fun found ↦ ?_
    obtain ⟨stack', visited'⟩ := found
    cases stack' with
    | nil => exact finds_pure ()
    | cons address stack' =>
      exact finds_node hbuilder address _ _
        ((finds_followLink _).bind fun right ↦ ih right stack' visited')

/-- A walk finds the root and what is listed below it. -/
theorem finds_walkTree {builder : Builder} (hbuilder : Builds builder) (limit : Nat)
    (expression : String) (key value : TypeName) :
    Finds (walkTree builder limit expression key value) :=
  (finds_followLink _).bind fun root ↦ finds_listNodes hbuilder key value limit root [] []

/-! ### Maps -/

section Maps

variable {walk : Walk} {rest : List String} {count : String}

/-- What a complete walk has found makes up the decoder of the map. -/
theorem Found.built (h : Found walk live known []) (hroots : ∀ root ∈ live, isRootName root)
    (count : String) : Built (.map count walk.links walk.nodes) (count :: live) known where
  roots := by
    rw [Watch.derivedRoots_map]
    simpa using h.accounted
  members := by
    intro m hm
    obtain ⟨node, hnode, hm⟩ := List.mem_flatMap.mp hm
    obtain ⟨⟨hkey, hkeyLive⟩, hvalue, hvalueLive⟩ := h.nodes node hnode
    have hrooted : ∀ {name}, name ∈ live → rootOf name ∈ count :: live := fun hname ↦
      (rootOf_eq_self (hroots _ hname)).symm ▸ List.mem_cons_of_mem count hname
    simp only [List.mem_cons, List.not_mem_nil, or_false] at hm
    rcases hm with rfl | rfl
    · exact ⟨hkey, hrooted hkeyLive⟩
    · exact ⟨hvalue, hrooted hvalueLive⟩

/-- Of what became live, the decoder uses what was found and not the rest. -/
theorem Found.filter_derivedRoots (h : Found walk live known rest) (hnodup : live.Nodup)
    (hcount : count ∉ live) :
    (live.filter (Watch.mk "" "" (.map count walk.links walk.nodes)).derivedRoots.contains).Perm
      (walk.links ++ walk.nodes.flatMap MapNode.roots) := by
  have hsplit := h.accounted
  have hdisjoint := List.disjoint_of_nodup_append (hsplit.nodup_iff.mp hnodup)
  refine (hsplit.filter _).trans ?_
  rw [List.filter_append, Watch.derivedRoots_map]
  have hused : (walk.links ++ walk.nodes.flatMap MapNode.roots).filter
      (count :: walk.links ++ walk.nodes.flatMap MapNode.roots).contains =
        walk.links ++ walk.nodes.flatMap MapNode.roots := by
    refine List.filter_eq_self.mpr fun name hname ↦ ?_
    exact List.contains_iff_mem.mpr (List.mem_cons_of_mem count hname)
  have hrest :
      rest.filter (count :: walk.links ++ walk.nodes.flatMap MapNode.roots).contains = [] := by
    refine List.filter_eq_nil_iff.mpr fun name hname ↦ ?_
    have hne : name ≠ count := fun heq ↦
      hcount (heq ▸ hsplit.mem_iff.mpr (List.mem_append_right _ hname))
    have hnot : name ∉ walk.links ++ walk.nodes.flatMap MapNode.roots :=
      fun hmem ↦ hdisjoint hmem hname
    simpa [hne] using hnot
  rw [hused, hrest, List.append_nil]

/-- Where only the rest is gone, what was found is still there. -/
theorem Found.drop {used known' : List String} (h : Found walk live known rest)
    (hused : used.Perm (walk.links ++ walk.nodes.flatMap MapNode.roots))
    (hroots : ∀ root ∈ used, isRootName root)
    (hkept : ∀ name ∈ known, rootOf name ∈ used → name ∈ known') :
    Found { walk with created := used } used known' [] where
  created := rfl
  accounted := by simpa using hused
  nodes := by
    intro node hnode
    have hnodeRoots : ∀ name ∈ node.roots, name ∈ used := fun name hname ↦
      hused.mem_iff.mpr (List.mem_append_right _ (List.mem_flatMap.mpr ⟨node, hnode, hname⟩))
    have hstands : ∀ {w : Watch}, w.Stands known → (∀ name ∈ w.roots, name ∈ used) →
        w.Stands known' ∧ w.var ∈ used := by
      intro w hw hall
      have hvar := hall w.var List.mem_cons_self
      refine ⟨hw.mono fun name hname hroot ↦ hkept name hname (hall _ ?_), hvar⟩
      rwa [rootOf_eq_self (hroots _ hvar)] at hroot
    obtain ⟨⟨hkey, -⟩, hvalue, -⟩ := h.nodes node hnode
    exact ⟨hstands hkey fun name hname ↦ hnodeRoots name (List.mem_append_left _ hname),
      hstands hvalue fun name hname ↦ hnodeRoots name (List.mem_append_right _ hname)⟩

/-- The rest is discarded. -/
theorem owns_discardRest (h : Found walk live s.objects.known rest) {kept : List String}
    (hkept : kept = (Watch.mk "" "" (.map count walk.links walk.nodes)).derivedRoots)
    (hcount : count ∉ live) :
    (discardAll (live.filter (not ∘ kept.contains))).Owns start live s fun _ live' s' ↦
      live' = live.filter kept.contains ∧
        Found { walk with created := live' } live' s'.objects.known [] := by
  refine Task.owns_intro fun hnodup hgrown ↦ ?_
  have hused := hkept ▸ h.filter_derivedRoots hnodup hcount
  have hsplit : live.Perm (live.filter (not ∘ kept.contains) ++ live.filter kept.contains) :=
    (List.filter_append_perm kept.contains live).symm.trans List.perm_append_comm
  refine ((owns_discardAll _).of_perm hsplit).mono ?_
  rintro _ _ s' ⟨rfl, hothers⟩
  refine ⟨rfl, h.drop hused (fun root hroot ↦ hgrown.roots root (List.mem_of_mem_filter hroot)) ?_⟩
  intro name hname hroot
  refine hothers name hname fun hgone ↦ ?_
  have hin := (List.mem_filter.mp hroot).2
  have hout := (List.mem_filter.mp hgone).2
  rw [Function.comp_apply, hin] at hout
  nomatch hout

/-- A map is built also when the walk through its tree fails. -/
theorem adds_buildMap {builder : Builder} (hbuilder : Builds builder) (limit : Nat)
    (expression : String) (key value : TypeName) (s : Session) :
    Adds (buildMap builder limit expression key value) s fun decoder live s' ↦
      Built decoder live s'.objects.known := by
  refine (adds_createTracked s _).bind ?_
  rintro count _ s₁ hgrown ⟨rfl, -⟩ list
  have hcount := hgrown.live_subset (List.mem_singleton_self count.name)
  have hcountRoot := hgrown.roots count.name (List.mem_singleton_self count.name)
  have hwalk := finds_walkTree hbuilder limit expression key value s₁ s₁ [] ⟨[], [], []⟩
    ⟨rfl, .nil, by simp⟩
  refine owns_bind (owns_lift hwalk) ?_ ?_
  · rintro ⟨result, walk⟩ _ live s₂ ⟨_, hsame, rfl, rest, hfound, hrest⟩
    obtain rfl := Except.ok.inj hsame
    refine owns_intro fun hnodup hgrown' ↦ ?_
    cases result with
    | ok _ =>
      obtain rfl := hrest () rfl
      refine owns_bind_modify (owns_pure ⟨by rw [hfound.created], ?_⟩)
      rintro _ ⟨⟩
      exact hfound.built hgrown'.roots count.name
    | error e =>
      obtain rfl : walk.created = live := hfound.created
      have hfresh : count.name ∉ walk.created := fun hmem ↦
        hgrown'.fresh count.name hcount ((rootOf_eq_self hcountRoot).symm ▸ hmem)
      dsimp only
      rw [List.partition_eq_filter_filter]
      refine owns_bind (owns_lift (owns_discardRest hfound rfl hfresh)) ?_ ?_
      · rintro _ _ _ s₃ ⟨_, -, rfl, rfl, hfound'⟩
        refine owns_intro fun _ hgrown'' ↦ owns_bind_modify (owns_pure ⟨rfl, ?_⟩)
        rintro _ ⟨⟩
        exact hfound'.built hgrown''.roots count.name
      · rintro e _ _ _ ⟨_, hsame, -⟩
        nomatch hsame
  · rintro e _ _ _ ⟨_, hsame, -⟩
    nomatch hsame

end Maps

/-! ### Building a watch -/

/-- The derived roots of a watch depend on its decoder only. -/
theorem derivedRoots_congr (var expression : String) (decoder : Decoder) :
    (Watch.mk var expression decoder).derivedRoots = (Watch.mk "" "" decoder).derivedRoots := by
  rw [Watch.derivedRoots_eq, Watch.derivedRoots_eq]
  rfl

/-- A decoder without members and objects of its own. -/
theorem built_plain {decoder : Decoder} (hown : decoder.ownVars = [])
    (hmembers : decoder.members = []) : Built decoder [] known := by
  refine ⟨?_, by simp [hmembers]⟩
  rw [Watch.derivedRoots_of_members_eq_nil hmembers, hown]

/-- A watch with a decoder that was built can be read. -/
theorem Built.stands {decoder : Decoder} {start table : VariableTable} {name : String}
    (h : Built decoder live table.known) (hgrown : start.Grown table live)
    (hname : name ∈ table.known) (expression : String) :
    (Watch.mk name expression decoder).Stands table.known := by
  have hroots := derivedRoots_congr name expression decoder ▸ h.roots
  refine .of_members hname (fun root hroot ↦ ?_) fun m hm ↦ ?_
  · have hlive := hroots.mem_iff.mpr hroot
    exact ⟨hgrown.live_subset hlive, hgrown.roots root hlive⟩
  · exact (h.members m hm).imp_right hroots.mem_iff.mp

/-- Building creates the derived roots of the watch, however deep containers nest. -/
theorem builds_build (limit depth : Nat) : Builds (build limit depth) := by
  induction depth with
  | zero =>
    intro v expression s _ list
    refine (owns_lift (P := fun _ _ _ ↦ False) Task.owns_endless).mono ?_
    rintro _ _ _ _ ⟨_, -, -, hfalse⟩
    exact hfalse.elim
  | succ depth ih =>
    intro v expression s hname
    unfold build
    extract_lets parts finish
    have hfinish : ∀ {decoder : Decoder} {live : List String} {s' : Session},
        s.objects.Grown s'.objects live → Built decoder live s'.objects.known →
          Adds (finish decoder) s' fun w live' s'' ↦
            w.var = v.name ∧ (live ++ live').Perm w.derivedRoots ∧ w.Stands s''.objects.known := by
      intro decoder live s' hgrown hbuilt
      refine adds_pure ⟨rfl, ?_, hbuilt.stands hgrown (hgrown.subset hname) expression⟩
      rw [List.append_nil, derivedRoots_congr]
      exact hbuilt.roots
    have hplain : ∀ {decoder : Decoder}, decoder.ownVars = [] → decoder.members = [] →
        Adds (finish decoder) s fun w live s' ↦
          w.var = v.name ∧ live.Perm w.derivedRoots ∧ w.Stands s'.objects.known :=
      fun hown hmembers ↦ hfinish (.refl s.objects) (built_plain hown hmembers)
    split
    · exact hplain rfl rfl
    · exact hplain rfl rfl
    · exact hplain rfl rfl
    · exact hplain rfl rfl
    · exact hplain rfl rfl
    · refine (adds_createTracked s _).bind ?_
      rintro chars _ s₁ hgrown ⟨rfl, -⟩
      have hroots : (Watch.mk "" "" (.str chars.name)).derivedRoots = [chars.name] :=
        Watch.derivedRoots_of_members_eq_nil rfl
      exact hfinish hgrown ⟨by rw [hroots], by simp [Decoder.members]⟩
    · refine (adds_buildFrom ih s _).bind ?_
      rintro first live s₁ hgrown ⟨hlive, hstands⟩
      refine (adds_buildFrom ih s₁ _).bind ?_
      rintro second live' s₂ hgrown' ⟨hlive', hstands'⟩
      have hall := hgrown.trans hgrown'
      have hbuilt : Built (.pair first second) (live ++ live') s₂.objects.known := by
        refine ⟨by rw [Watch.derivedRoots_pair]; exact hlive.append hlive', fun m hm ↦ ?_⟩
        have hrooted : ∀ {w : Watch} {added : List String}, added.Perm w.roots →
            added ⊆ live ++ live' → rootOf w.var ∈ live ++ live' := by
          intro w added hperm hsubset
          have hmem := hsubset (hperm.mem_iff.mpr List.mem_cons_self)
          rwa [rootOf_eq_self (hall.roots _ hmem)]
        simp only [Decoder.members, List.mem_cons, List.not_mem_nil, or_false] at hm
        rcases hm with rfl | rfl
        · exact ⟨hstands.mono fun _ hname _ ↦ hgrown'.subset hname,
            hrooted hlive (List.subset_append_left _ _)⟩
        · exact ⟨hstands', hrooted hlive' (List.subset_append_right _ _)⟩
      simp only [← List.append_assoc]
      exact hfinish hall hbuilt
    · exact (adds_buildVector ih limit expression s).bind fun _ _ _ hgrown hbuilt ↦
        hfinish hgrown hbuilt
    · exact (adds_buildMap ih limit expression _ _ s).bind fun _ _ _ hgrown hbuilt ↦
        hfinish hgrown hbuilt

end Session

end DebugLink
