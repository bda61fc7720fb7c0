import DebugLink.Proofs.Session.Walking
import DebugLink.Proofs.Variable.Children
import DebugLink.Proofs.Watch.Kinship
import DebugLink.Proofs.Watch.NodeTree

/-!
Walks through intact trees. Where the links that the debugger shows are those of a finite tree, the
walk lists the beginning of the tree in order (`Session.buildMap_inorder`). What ties the stack and
the current link to the tree is that what is pending on the stack, after the tree below the link, is
what is still to be listed (`Session.ensures_listNodes_tree`).
-/

set_option autoImplicit false

namespace DebugLink

open NodeTree

/-! ### What the debugger shows -/

namespace Replies

variable (replies : Replies) (key value : TypeName)

/-- Whether an expression comes to a pointer to an address, printed with or without a cast. -/
def Points (expression : String) (address : Address) : Prop :=
  ∃ v cast, replies.object expression = .ok v ∧ Printed.Cast cast ∧
    v.value = some (cast ++ Address.text address)

/-- Whether an expression comes to a value of scalar type. -/
def Shows (expression : String) : Prop :=
  replies.Obtains expression ∧ replies.IsScalar expression

/-- Whether the debugger shows a node with trees on its two sides. -/
structure ShowsNode (address : Address) (left right : NodeTree) : Prop where
  left : replies.Points (NodePart.left.expression key value address) (top left)
  first : replies.Shows (NodePart.first.expression key value address)
  second : replies.Shows (NodePart.second.expression key value address)
  right : replies.Points (NodePart.right.expression key value address) (top right)

/-- Whether the debugger shows a tree. -/
def ShowsTree : NodeTree → Prop
  | .nil => True
  | .node address left right =>
    replies.ShowsNode key value address left right ∧ ShowsTree left ∧ ShowsTree right

/-- Whether the debugger shows a node that is still to be listed, and the tree to its right. -/
def ShowsFrame (frame : NodeTree.Frame) : Prop :=
  (∃ left, replies.ShowsNode key value frame.1 left frame.2) ∧ replies.ShowsTree key value frame.2

/-- Whether the debugger shows a map whose entries are in a tree. -/
structure ShowsMap (expression : String) (tree : NodeTree) : Prop where
  count : replies.Obtains (Expression.mapCount expression)
  root : replies.Points (Expression.mapRoot expression) (top tree)
  tree : replies.ShowsTree key value tree

/-- Whether different expressions get objects of different names. -/
def Distinguishes : Prop :=
  ∀ expression expression' v v', replies.object expression = .ok v →
    replies.object expression' = .ok v' → v.name = v'.name → expression = expression'

/-- The decoded value of an expression of scalar type. -/
def native (expression : String) : Native :=
  match replies.object expression with
  | .ok v => Watch.decodeWith .empty v.value (v.scalar?.getD .raw)
  | .error _ => .unavailable

variable {replies} {key value} {expression : String} {address : Address} {v : Variable}

theorem Points.link (h : replies.Points expression address) :
    replies.link expression = .ok (some address) := by
  obtain ⟨v, cast, hobject, hcast, hvalue⟩ := h
  rw [Replies.link, hobject]
  show Except.ok (v.value >>= Printed.address?) = _
  rw [hvalue]
  exact congrArg Except.ok (Printed.address?_of_cast hcast address)

theorem Points.obtains (h : replies.Points expression address) : replies.Obtains expression := by
  obtain ⟨v, _, hobject, -⟩ := h
  exact ⟨v, hobject⟩

/-- Each node on the way down is shown, and so is the tree to its right. -/
theorem ShowsTree.spine {tree : NodeTree} (h : replies.ShowsTree key value tree) :
    ∀ frame ∈ spine tree, replies.ShowsFrame key value frame := by
  induction tree with
  | nil => simp [NodeTree.spine]
  | node address left right ihl _ =>
    obtain ⟨hnode, hleft, hright⟩ := h
    intro frame hmem
    rcases List.mem_append.mp hmem with hspine | hlast
    · exact ihl hleft frame hspine
    · obtain rfl := List.mem_singleton.mp hlast
      exact ⟨⟨left, hnode⟩, hright⟩

section OfTable

variable {values : List (String × String)} {refused : List String}

theorem distinguishes_ofTable : (ofTable values refused).Distinguishes := by
  have hname : ∀ e v, (ofTable values refused).object e = .ok v → v.name = e := by
    intro e v h
    by_cases he : e ∈ refused
    · rw [object_ofTable_of_mem he] at h
      nomatch h
    · obtain rfl := Except.ok.inj ((object_ofTable he).symm.trans h)
      rfl
  intro e e' v v' h h' heq
  rw [← hname e v h, ← hname e' v' h', heq]

theorem points_ofTable {cast : String} (hcast : Printed.Cast cast) (hrefused : expression ∉ refused)
    (h : (values.lookup expression).getD "0" = cast ++ Address.text address) :
    (ofTable values refused).Points expression address :=
  ⟨_, cast, object_ofTable hrefused, hcast, congrArg some h⟩

theorem shows_ofTable (hrefused : expression ∉ refused) :
    (ofTable values refused).Shows expression :=
  ⟨⟨_, object_ofTable hrefused⟩, isScalar_ofTable expression⟩

theorem native_ofTable (hrefused : expression ∉ refused) (n : Int64)
    (h : Printed.int? ((values.lookup expression).getD "0") = some n) :
    (ofTable values refused).native expression = .int n := by
  unfold native
  rw [object_ofTable hrefused]
  exact Variable.native_of_int rfl h

end OfTable

end Replies

/-! ### Decoding what is stored -/

/-- The state of a walk through an intact tree: every object that was asked for is stored, and the
nodes listed have the watches on their members. -/
structure Stocked (replies : Replies) (key value : TypeName) (nodes : List MapNode)
    (trace : List Exchange) (s : Session) : Prop where
  stored : ∀ e ∈ asked trace, ∀ v, replies.object e = .ok v → s.objects.get? v.name = some v
  told : ∀ node ∈ nodes, replies.Tells key value node
  asked : ∀ node ∈ nodes, NodePart.first.expression key value node.address ∈ DebugLink.asked trace ∧
    NodePart.second.expression key value node.address ∈ DebugLink.asked trace

namespace Stocked

variable {replies : Replies} {key value : TypeName} {nodes : List MapNode} {expression : String}
  {trace trace' : List Exchange} {s s' : Session}

theorem start : Stocked replies key value [] [] s :=
  ⟨by simp, by simp, by simp⟩

/-- Another expression is asked for. -/
theorem ask (h : Stocked replies key value nodes trace s) (hnames : replies.Distinguishes)
    (hobtains : replies.Obtains expression) (hasks : replies.Asks expression trace s trace' s') :
    Stocked replies key value nodes trace' s' where
  stored e he v hobject := by
    obtain ⟨w, hw⟩ := hobtains
    rw [hasks.stored w hw, VariableTable.get?_insert]
    split_ifs with hname
    · obtain rfl := hnames e expression v w hobject hw hname
      rw [Except.ok.inj (hobject.symm.trans hw)]
    · rw [hasks.asked, List.mem_append, List.mem_singleton] at he
      rcases he with hold | rfl
      · exact h.stored e hold v hobject
      · exact absurd (congrArg Variable.name (Except.ok.inj (hobject.symm.trans hw))) hname
  told := h.told
  asked node hnode := by
    rw [hasks.asked]
    exact ⟨List.mem_append_left _ (h.asked node hnode).1,
      List.mem_append_left _ (h.asked node hnode).2⟩

/-- A node is listed. -/
theorem list {node : MapNode} (h : Stocked replies key value nodes trace s)
    (htold : replies.Tells key value node)
    (hasked : NodePart.first.expression key value node.address ∈ DebugLink.asked trace ∧
      NodePart.second.expression key value node.address ∈ DebugLink.asked trace) :
    Stocked replies key value (nodes ++ [node]) trace s where
  stored := h.stored
  told := List.forall_mem_append.mpr ⟨h.told, by simpa using htold⟩
  asked := List.forall_mem_append.mpr ⟨h.asked, by simpa using hasked⟩

/-- A watch that comes of an expression asked for decodes to the value of the expression. -/
theorem decode_watch {w : Watch} (h : Stocked replies key value nodes trace s)
    (hasked : expression ∈ DebugLink.asked trace) (hwatch : replies.watch expression = .ok w) :
    w.decode s.objects = replies.native expression := by
  cases hobject : replies.object expression with
  | error e =>
    rw [Replies.watch, hobject] at hwatch
    cases hwatch
  | ok v =>
    rw [Replies.watch, hobject] at hwatch
    obtain rfl : v.watch expression = w := Except.ok.inj hwatch
    rw [Watch.decode_watch (h.stored expression hasked v hobject)
      (Replies.newborn_of_object hobject).1, Replies.native, hobject]
    rfl

/-- The entries of the map are the decoded values of the members of the nodes. -/
theorem decode_map (h : Stocked replies key value nodes trace s) (count : String)
    (links : List String) (printed : Option String) :
    Watch.decodeWith s.objects printed (.map count links nodes) =
      .map ((nodes.map MapNode.address).map fun address ↦
        (replies.native (NodePart.first.expression key value address),
          replies.native (NodePart.second.expression key value address))) := by
  unfold Watch.decodeWith
  rw [Watch.decodeNodes_eq_map, List.map_map]
  refine congrArg Native.map (List.map_congr_left fun node hnode ↦ ?_)
  obtain ⟨hfirst, hsecond⟩ := h.told node hnode
  rw [h.decode_watch (h.asked node hnode).1 hfirst, h.decode_watch (h.asked node hnode).2 hsecond]
  rfl

end Stocked

namespace Session

variable {replies : Replies} {key value : TypeName} {expression : String} {limit depth : Nat}
  {tree : NodeTree} {frames : List NodeTree.Frame} {stack visited : List Address}
  {list : List String} {walk : Walk} {trace : List Exchange} {s : Session}

/-! ### Walking through a tree -/

/-- Following a link that is shown. -/
theorem ensures_followPoints (hnames : replies.Distinguishes) {address : Address}
    (hpoints : replies.Points expression address)
    (hstocked : Stocked replies key value walk.nodes trace s) :
    Keeping.Ensures replies.responder (followLink expression) walk trace s
      fun result walk' trace' s' ↦ result = .ok (some address) ∧ walk'.nodes = walk.nodes ∧
        Stocked replies key value walk'.nodes trace' s' := by
  refine (ensures_followLink replies expression walk trace s).mono ?_
  rintro result walk' trace' s' ⟨hresult, hnodes, hasks⟩
  rw [hnodes]
  exact ⟨hresult.trans hpoints.link, rfl, hstocked.ask hnames hpoints.obtains hasks⟩

/-- Building the watch on a member that is shown. -/
theorem ensures_shownMember (hnames : replies.Distinguishes) (hshows : replies.Shows expression)
    (hstocked : Stocked replies key value walk.nodes trace s) :
    Keeping.Ensures replies.responder (inWalk (buildFrom (build limit (depth + 1)) expression)) walk
      trace s fun result walk' trace' s' ↦
        (∃ w, result = .ok w ∧ replies.watch expression = .ok w) ∧ walk'.nodes = walk.nodes ∧
        asked trace' = asked trace ++ [expression] ∧
        Stocked replies key value walk'.nodes trace' s' := by
  refine (ensures_member replies hshows.2 walk trace s).mono ?_
  rintro result walk' trace' s' ⟨hresult, hnodes, hasks⟩
  obtain ⟨v, hv⟩ := hshows.1
  have hwatch : replies.watch expression = .ok (v.watch expression) := by
    rw [Replies.watch, hv]
    rfl
  rw [hnodes]
  exact ⟨⟨_, hresult.trans hwatch, hwatch⟩, rfl, hasks.asked, hstocked.ask hnames hshows.1 hasks⟩

/-- The way down to the left in a tree of new nodes is its spine. -/
theorem ensures_descend_tree (hnames : replies.Distinguishes)
    (hshows : replies.ShowsTree key value tree) (hnodup : (inorder tree).Nodup)
    (hzero : 0 ∉ inorder tree) (hunseen : ∀ address ∈ inorder tree, address ∉ visited)
    (hvisited : visited.Nodup) {fuel : Nat} (hfuel : addressCount < fuel + visited.length)
    (hstocked : Stocked replies key value walk.nodes trace s) :
    Keeping.Ensures replies.responder (descend fuel (some (top tree)) stack visited) walk trace s
      fun result walk' trace' s' ↦
        result = .ok ((spine tree).map Prod.fst ++ stack, (spine tree).map Prod.fst ++ visited) ∧
        walk'.nodes = walk.nodes ∧ Stocked replies key value walk'.nodes trace' s' := by
  induction tree generalizing fuel stack visited walk trace s with
  | nil =>
    have hlength := length_le_addressCount hvisited
    obtain ⟨fuel, rfl⟩ := Nat.exists_eq_add_one_of_ne_zero (n := fuel) (by omega)
    unfold descend
    rw [if_pos (.inl (by rfl))]
    exact Keeping.ensures_pure ⟨rfl, rfl, hstocked⟩
  | node address left right ihl _ =>
    obtain ⟨hnode, hleft, -⟩ := hshows
    have hlength := length_le_addressCount hvisited
    obtain ⟨fuel, rfl⟩ := Nat.exists_eq_add_one_of_ne_zero (n := fuel) (by omega)
    have hnew : address ∉ visited := hunseen address (by simp [inorder])
    have haddress : address ≠ 0 := fun heq ↦ hzero (by simp [inorder, heq])
    have hbelow : ∀ other ∈ inorder left, other ∈ inorder (.node address left right) :=
      fun other hmem ↦ List.mem_append_left _ hmem
    unfold descend
    rw [if_neg (by simpa using ⟨haddress, hnew⟩)]
    refine Keeping.ensures_bind (ensures_followPoints hnames hnode.left hstocked) ?_ (by simp)
    rintro link walk₁ trace₁ s₁ ⟨hlink, hnodes, hstocked₁⟩
    obtain rfl := Except.ok.inj hlink
    refine (ihl hleft hnodup.of_append_left (fun hmem ↦ hzero (hbelow 0 hmem)) ?_
      (List.nodup_cons.mpr ⟨hnew, hvisited⟩) (by simp only [List.length_cons]; omega)
      hstocked₁).mono ?_
    · intro other hmem hseen
      rcases List.mem_cons.mp hseen with rfl | hold
      · exact (List.nodup_append.mp hnodup).2.2 other hmem other List.mem_cons_self rfl
      · exact hunseen other (hbelow other hmem) hold
    · rintro result walk' trace' s' ⟨hresult, hnodes', hstocked'⟩
      exact ⟨by simp [hresult, spine, top], hnodes'.trans hnodes, hstocked'⟩

/-- Listing nodes in a tree, with others still to be listed: the nodes come in order. -/
theorem ensures_listNodes_tree (hnames : replies.Distinguishes)
    (hshows : replies.ShowsTree key value tree)
    (hframes : ∀ frame ∈ frames, replies.ShowsFrame key value frame)
    (hahead : Ahead tree frames visited) {count : Nat}
    (hstocked : Stocked replies key value walk.nodes trace s) :
    Keeping.Ensures replies.responder (listNodes (build limit (depth + 1)) key value count
      (some (top tree)) (frames.map Prod.fst) visited) walk trace s
      fun result walk' trace' s' ↦ result = .ok () ∧
        walk'.nodes.map MapNode.address =
          walk.nodes.map MapNode.address ++ (inorder tree ++ NodeTree.pending frames).take count ∧
        Stocked replies key value walk'.nodes trace' s' := by
  induction count generalizing tree frames visited walk trace s with
  | zero =>
    unfold listNodes
    exact Keeping.ensures_pure ⟨rfl, by simp, hstocked⟩
  | succ count ih =>
    unfold listNodes
    refine Keeping.ensures_bind (ensures_descend_tree hnames hshows hahead.nodup.of_append_left
      (fun hmem ↦ hahead.nonzero (List.mem_append_left _ hmem))
      (fun address hmem ↦ hahead.unseen address (List.mem_append_left _ hmem)) hahead.once
      (by omega) hstocked) ?_ (by simp)
    rintro found walk₁ trace₁ s₁ ⟨hfound, hnodes₁, hstocked₁⟩
    obtain rfl := Except.ok.inj hfound
    have hpending : NodeTree.pending (spine tree ++ frames) =
        inorder tree ++ NodeTree.pending frames := by
      rw [pending_append, pending_spine]
    rw [← List.map_append, ← hpending]
    cases hstack : spine tree ++ frames with
    | nil => exact Keeping.ensures_pure ⟨rfl, by simp [NodeTree.pending, hnodes₁], hstocked₁⟩
    | cons frame rest =>
      have hshown : ∀ frame' ∈ frame :: rest, replies.ShowsFrame key value frame' := by
        rw [← hstack]
        exact List.forall_mem_append.mpr ⟨hshows.spine, hframes⟩
      obtain ⟨⟨⟨left, hnode⟩, hright⟩, hrest⟩ := List.forall_mem_cons.mp hshown
      -- The key and the value.
      refine Keeping.ensures_bind (ensures_shownMember hnames hnode.first hstocked₁) ?_ (by simp)
      rintro first walk₂ trace₂ s₂ ⟨⟨_, hfirst, hkey⟩, hnodes₂, hasked₂, hstocked₂⟩
      obtain rfl := Except.ok.inj hfirst
      refine Keeping.ensures_bind (ensures_shownMember hnames hnode.second hstocked₂) ?_ (by simp)
      rintro second walk₃ trace₃ s₃ ⟨⟨_, hsecond, hvalue⟩, hnodes₃, hasked₃, hstocked₃⟩
      obtain rfl := Except.ok.inj hsecond
      -- The node is listed, and the tree to its right comes next.
      have hlisted : Stocked replies key value (walk₃.nodes ++ [⟨frame.1, first, second⟩]) trace₃
          s₃ :=
        hstocked₃.list ⟨hkey, hvalue⟩
          (by simp [hasked₃, hasked₂, MapNode.address, NodePart.expression])
      refine Keeping.ensures_bind_modify (Keeping.ensures_bind
        (ensures_followPoints hnames hnode.right hlisted) ?_ (by simp))
      rintro link walk₄ trace₄ s₄ ⟨hlink, hnodes₄, hstocked₄⟩
      obtain rfl := Except.ok.inj hlink
      refine (ih hright hrest (hahead.pop hstack) hstocked₄).mono ?_
      rintro result walk' trace' s' ⟨hresult, hnodes', hstocked'⟩
      exact ⟨hresult, by simp [hnodes', hnodes₄, hnodes₃, hnodes₂, hnodes₁, MapNode.address],
        hstocked'⟩

theorem ensures_walkTree_tree (hnames : replies.Distinguishes)
    (hroot : replies.Points (Expression.mapRoot expression) (top tree))
    (hshows : replies.ShowsTree key value tree) (hnodup : (inorder tree).Nodup)
    (hzero : 0 ∉ inorder tree) (hstocked : Stocked replies key value [] trace s) :
    Keeping.Ensures replies.responder
      (walkTree (build limit (depth + 1)) limit expression key value) ⟨[], [], []⟩ trace s
      fun result walk trace' s' ↦ result = .ok () ∧
        walk.nodes.map MapNode.address = (inorder tree).take limit ∧
        Stocked replies key value walk.nodes trace' s' := by
  refine Keeping.ensures_bind (ensures_followPoints hnames hroot hstocked) ?_ (by simp)
  rintro root walk₁ trace₁ s₁ ⟨hlink, hnodes₁, hstocked₁⟩
  obtain rfl := Except.ok.inj hlink
  refine (ensures_listNodes_tree hnames hshows (by simp) (.start hnodup hzero) hstocked₁).mono ?_
  rintro result walk trace' s' ⟨hresult, hnodes, hstocked'⟩
  refine ⟨hresult, ?_, hstocked'⟩
  rw [hnodes, hnodes₁]
  simp [NodeTree.pending]

/-- Building the decoder of a map whose entries are in a finite tree, of different nodes other than
null with keys and values of scalar type. The nodes kept are the first ones of the tree in order, as
many as the limit says, each with the watches on its own members. As different expressions get
objects of different names, the map then decodes to just these entries in this order, and in a
search tree they are in the order of their keys. -/
theorem buildMap_inorder (hnames : replies.Distinguishes)
    (hshows : replies.ShowsMap key value expression tree) (hnodup : (inorder tree).Nodup)
    (hzero : 0 ∉ inorder tree) :
    Keeping.Ensures replies.responder
      (buildMap (build limit (depth + 1)) limit expression key value) list [] s
      fun result _ _ s' ↦ ∃ count links nodes, result = .ok (.map count links nodes) ∧
        nodes.map MapNode.address = (inorder tree).take limit ∧
        (nodes.map MapNode.address).Nodup ∧
        (∀ node ∈ nodes, replies.Tells key value node) ∧
        (∀ printed, Watch.decodeWith s'.objects printed (.map count links nodes) =
          .map (((inorder tree).take limit).map fun address ↦
            (replies.native (NodePart.first.expression key value address),
              replies.native (NodePart.second.expression key value address)))) ∧
        ∀ (κ : Type) [Preorder κ] (keyAt : Address → κ), IsSearch keyAt tree →
          (nodes.map MapNode.address).Pairwise fun address later ↦ keyAt address < keyAt later := by
  obtain ⟨v, hv⟩ := hshows.count
  refine Keeping.ensures_bind (ensures_createTracked replies _ list [] s) ?_ ?_
  swap
  · rintro error _ trace₁ s₁ ⟨hobject, -⟩
    nomatch hobject.trans hv
  rintro count list₁ trace₁ s₁ ⟨-, hasks⟩
  have hstocked₁ : Stocked replies key value [] trace₁ s₁ :=
    Stocked.start.ask hnames hshows.count hasks
  refine Keeping.ensures_bind_lift (ensures_walkTree_tree hnames hshows.root hshows.tree hnodup
    hzero hstocked₁) ?_
  rintro ⟨walked, walk⟩ trace₂ s₂ ⟨hwalked, hnodes, hstocked₂⟩
  obtain rfl : walked = .ok () := hwalked
  refine Keeping.ensures_bind_modify (Keeping.ensures_pure ⟨count.name, walk.links, walk.nodes, rfl,
    hnodes, ?_, hstocked₂.told, fun printed ↦ ?_, fun κ _ keyAt hsearch ↦ ?_⟩)
  · rw [hnodes]
    exact hnodup.sublist (List.take_sublist _ _)
  · rw [hstocked₂.decode_map, hnodes]
  · rw [hnodes]
    exact hsearch.pairwise.sublist (List.take_sublist _ _)

/-- A map of four entries. To the right of the node 0x20 there is another one. -/
def forked : NodeTree :=
  .node 0x10 (.node 0x20 .nil (.node 0x40 .nil .nil)) (.node 0x30 .nil .nil)

/-- What is printed for the map, with a cast at one of the links. -/
def forkedText : List (String × String) :=
  [(Expression.mapRoot "m", "0x10"),
    (Expression.treeChild 0x10 "left", "(std::_Rb_tree_node_base *) 0x20"),
    (Expression.treeChild 0x10 "right", "0x30"), (Expression.treeChild 0x20 "left", "0x0"),
    (Expression.treeChild 0x20 "right", "0x40"), (Expression.treeChild 0x30 "left", "0x0"),
    (Expression.treeChild 0x30 "right", "0x0"), (Expression.treeChild 0x40 "left", "0x0"),
    (Expression.treeChild 0x40 "right", "0x0"),
    (NodePart.first.expression (.named "int") (.named "int") 0x20, "1"),
    (NodePart.first.expression (.named "int") (.named "int") 0x40, "2"),
    (NodePart.first.expression (.named "int") (.named "int") 0x10, "3")]

theorem showsMap_forkedText :
    (Replies.ofTable forkedText []).ShowsMap (.named "int") (.named "int") "m" forked := by
  have hshows : ∀ e, (Replies.ofTable forkedText []).Shows e := fun e ↦
    Replies.shows_ofTable (by simp)
  have hplain : ∀ {e : String} {address : Address},
      (forkedText.lookup e).getD "0" = Address.text address →
        (Replies.ofTable forkedText []).Points e address := fun h ↦
    Replies.points_ofTable .none (by simp) (by rw [h, String.empty_append])
  have hcast : (Replies.ofTable forkedText []).Points (Expression.treeChild 0x10 "left") 0x20 :=
    Replies.points_ofTable (.type "std::_Rb_tree_node_base *" (by decide)) (by simp)
      (by decide +kernel)
  refine ⟨(hshows _).1, hplain (by decide +kernel), ⟨hcast, hshows _, hshows _, ?_⟩,
    ⟨⟨?_, hshows _, hshows _, ?_⟩, trivial, ⟨?_, hshows _, hshows _, ?_⟩, trivial, trivial⟩,
    ⟨?_, hshows _, hshows _, ?_⟩, trivial, trivial⟩
  all_goals exact hplain (by decide +kernel)

/-- With a limit of three the first three entries are kept. -/
theorem buildMap_inorder_of_forked : ∃ trace list' s' count links nodes,
    ((buildMap (build 3 1) 3 "m" (.named "int") (.named "int")).run.run []).Runs (start .standard)
      trace (.ok (.map count links nodes), list') s' ∧
    nodes.map MapNode.address = [0x20, 0x40, 0x10] ∧
    Watch.decodeWith s'.objects none (.map count links nodes) =
      .map [(.int 1, .int 0), (.int 2, .int 0), (.int 3, .int 0)] := by
  have hinorder := @buildMap_inorder (.ofTable forkedText []) (.named "int") (.named "int") "m" 3 0
    forked [] (start .standard) Replies.distinguishes_ofTable showsMap_forkedText (by decide)
    (by decide)
  obtain ⟨trace, result, list', s', hattend, hpost⟩ := hinorder.attend
  obtain ⟨count, links, nodes, rfl, hnodes, -, -, hdecode, -⟩ := hpost
  refine ⟨trace, list', s', count, links, nodes, (Task.runs_of_attend hattend).1, hnodes, ?_⟩
  have hnative : ∀ e n, Printed.int? ((forkedText.lookup e).getD "0") = some n →
      (Replies.ofTable forkedText []).native e = .int n :=
    fun _ n h ↦ Replies.native_ofTable (by simp) n h
  rw [hdecode none]
  show Native.map [(_, _), (_, _), (_, _)] = _
  rw [hnative _ 1, hnative _ 0, hnative _ 2, hnative _ 0, hnative _ 3, hnative _ 0]
  all_goals decide +kernel

end Session

end DebugLink
