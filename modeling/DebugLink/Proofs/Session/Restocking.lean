import DebugLink.Proofs.Session.Happenings
import DebugLink.Proofs.Session.Kindred
import DebugLink.Proofs.Session.Updating

/-!
Operations leave sessions kindred. An operation that creates, lists, changes and deletes objects
leaves every watch registered and publishes nothing about watches but that objects have changed
(`Session.Restocks`); building a watch is such an operation, and so is rebuilding one. What is built
is for the object given, and reads roots and children of roots that it reads
(`Session.tends_build`): the array of a vector is read with its elements, and all else that a watch
reads it has created. So every session that arises from operations is kindred
(`Session.Arises.kindred`).
-/

set_option autoImplicit false

namespace DebugLink

open Variable

/-- A change to an object that keeps its name and its children. -/
theorem VariableTable.Linked.touch {table : VariableTable} (h : table.Linked)
    {f : Variable → Variable} (hf : ∀ v, (f v).name = v.name ∧ (f v).children = v.children)
    (name : String) : (table.modify name f).Linked :=
  h.modify (fun v _ ↦ (hf v).1) fun v hget child hchild ↦
    h.listed name v hget child ((hf v).2 ▸ hchild)

/-- Whether an object is named as a child and lists no children itself. -/
def Variable.Newborn (parent : String) (v : Variable) : Prop :=
  IsChild parent v.name ∧ v.children = none

variable {α σ : Type} {R : Session → Session → Prop} {s s₁ s' : Session}

namespace Session

/-- Watches that are registered stay so, and nothing is published about watches but that objects
have changed. -/
structure Restocks (s s' : Session) : Prop where
  registered : ∀ id, (s.watches.get? id).isSome → (s'.watches.get? id).isSome
  bulletin : ∃ news, s'.bulletin = s.bulletin ++ news ∧ ∀ event ∈ news, ∃ v, event = .watchUpdated v

namespace Restocks

theorem of_eq (hwatches : s'.watches = s.watches) (hbulletin : s'.bulletin = s.bulletin) :
    s.Restocks s' :=
  ⟨fun _ h ↦ hwatches ▸ h, [], by rw [hbulletin, List.append_nil], List.forall_mem_nil _⟩

/-- A session that rests restocks nothing. -/
theorem of_rests (h : s.Rests s') : s.Restocks s' :=
  of_eq (holdings_eq_iff.mp h.holdings).2.2.1 h.bulletin

theorem refl (s : Session) : s.Restocks s :=
  of_eq rfl rfl

/-- What is restocked first stays so. -/
theorem trans (h : s.Restocks s₁) (h' : s₁.Restocks s') : s.Restocks s' := by
  obtain ⟨news, hnews, hall⟩ := h.bulletin
  obtain ⟨later, hlater, hall'⟩ := h'.bulletin
  refine ⟨fun id hid ↦ h'.registered id (h.registered id hid), news ++ later, ?_, ?_⟩
  · rw [hlater, hnews, List.append_assoc]
  · intro event hmem
    exact (List.mem_append.mp hmem).elim (hall event) (hall' event)

/-- The table of objects is no part of what is restocked. -/
theorem objects (s : Session) (objects : VariableTable) : s.Restocks { s with objects } :=
  of_eq rfl rfl

theorem report (s : Session) (v : Variable) : s.Restocks (s.emit (.watchUpdated v)) := by
  have hevent : (Event.watchUpdated v).AboutWatches := trivial
  exact ⟨fun _ h ↦ h, [.watchUpdated v], bulletin_emit hevent s, fun _ hmem ↦
    ⟨v, List.mem_singleton.mp hmem⟩⟩

/-- To store a watch restocks it. -/
theorem insert (s : Session) (id : Nat) (w : Watch) :
    s.Restocks { s with watches := (s.watches.insert id w).2 } := by
  refine ⟨fun other h ↦ ?_, [], (List.append_nil _).symm, List.forall_mem_nil _⟩
  have hget : WatchRegistry.get? (s.watches.insert id w).2 other =
      if other = id then some w else s.watches.get? other := NumberedTable.get?_insert _ _ _ _
  show (WatchRegistry.get? (s.watches.insert id w).2 other).isSome
  rw [hget]
  split_ifs
  · rfl
  · exact h

end Restocks

/-! ### Objects -/

/-- To ask for a value changes nothing. -/
theorem tends_askValue (name : String) : Operation.Tends R (fun _ ↦ True) (askValue name) :=
  Operation.tends_bind (Operation.tends_request _) fun response _ ↦
    Operation.tends_textOf response _ _

/-- To discard an object touches no watch. -/
theorem tends_discardObject (name : String) :
    (discardObject name).Tends Restocks fun _ ↦ True :=
  Task.tends_bind (Operation.tends_request _).forget fun _ _ ↦
    Task.tends_update (fun s hs ↦ ⟨hs.objects (hs.linked.removeTree name), .objects s _⟩) trivial

theorem tends_discardAll (names : List String) : (discardAll names).Tends Restocks fun _ ↦ True :=
  Task.tends_forM names.reverse tends_discardObject

/-- A root that is stored is reported as it is. -/
theorem tends_storeObject {v : Variable} (hroot : isRootName v.name) (hbare : v.children = none) :
    Operation.Tends Restocks (fun stored ↦ isRootName stored.name) (storeObject v) :=
  Operation.tends_bind (P := fun _ ↦ True) (Operation.tends_lift (Task.tends_update (fun s hs ↦
    ⟨(hs.objects (hs.linked.insert hbare)).of_holdings rfl,
      (Restocks.objects s _).trans (.report _ v)⟩) trivial)) fun _ _ ↦ Operation.tends_pure hroot

/-- What is created is a root. -/
theorem tends_createObject (expression : String) :
    Operation.Tends Restocks (fun v ↦ isRootName v.name) (createObject expression) := by
  refine Operation.tends_bind (Operation.tends_request _) fun response hnamed ↦ ?_
  refine Operation.tends_bind (P := fun v ↦ isRootName v.name ∧ v.children = none) ?_ fun v hv ↦ ?_
  · intro v hv
    obtain ⟨hname, hbare⟩ := ofCreate_eq_ok hv
    exact ⟨hnamed.created v.name hname, hbare⟩
  · obtain ⟨hroot, hbare⟩ := hv
    split
    · exact tends_storeObject hroot hbare
    · refine Operation.tends_bind (Operation.tends_lift (tends_askValue v.name).forget)
        fun answer _ ↦ ?_
      cases answer with
      | ok value => exact tends_storeObject (v := { v with value := some value }) hroot hbare
      | error e =>
        exact Operation.tends_bind (Operation.tends_lift (tends_discardObject v.name)) fun _ _ ↦
          Operation.tends_throw

/-- A change to an object that keeps its name and its children. -/
theorem tends_touch {f : Variable → Variable}
    (hf : ∀ v, (f v).name = v.name ∧ (f v).children = v.children) (name : String) :
    Operation.Tends Restocks (fun _ ↦ True)
      (Operation.update (·.changeVariables (·.modify name f))) :=
  Operation.tends_lift (Task.tends_update (fun s hs ↦
    ⟨hs.objects (hs.linked.touch hf name), .objects s _⟩) trivial)

/-- To fetch a value touches no watch. -/
theorem tends_fetchValue (name : String) :
    Operation.Tends Restocks (fun _ ↦ True) (fetchValue name) := by
  refine Operation.tends_bind (tends_askValue name) fun _ _ ↦
    Operation.tends_bind (tends_touch ?_ name) fun _ _ ↦ Operation.tends_pure trivial
  exact fun _ ↦ ⟨rfl, rfl⟩

theorem tends_fetchPath (name : String) :
    Operation.Tends Restocks (fun _ ↦ True) (fetchPath name) := by
  refine Operation.tends_bind (Operation.tends_request _) fun response _ ↦
    Operation.tends_bind (Operation.tends_textOf response _ _) fun _ _ ↦
      Operation.tends_bind (tends_touch ?_ name) fun _ _ ↦ Operation.tends_pure trivial
  exact fun _ ↦ ⟨rfl, rfl⟩

/-- An assignment changes a value and nothing about the kinship of names. -/
theorem kindred_recordAssignment (hs : s.Kindred) (name value : String) :
    (s.recordAssignment name value).Kindred ∧ s.Restocks (s.recordAssignment name value) := by
  have htable := hs.objects (hs.linked.touch (f := fun v ↦ { v with value := some value })
    (fun _ ↦ ⟨rfl, rfl⟩) name)
  unfold recordAssignment
  dsimp only
  split
  · exact ⟨htable.of_holdings rfl, (Restocks.objects s _).trans (.report _ _)⟩
  · exact ⟨htable, .objects s _⟩

/-- To assign to an object touches no watch. -/
theorem tends_assign (name expression : String) :
    Operation.Tends Restocks (fun _ ↦ True) (assign name expression) :=
  Operation.tends_bind (Operation.tends_request _) fun _ _ ↦
    Operation.tends_bind (P := fun _ ↦ True) (Operation.tends_lift (Task.tends_update (fun _ hs ↦
      kindred_recordAssignment hs name _) trivial)) fun _ _ ↦ Operation.tends_pure trivial

/-- To set a format touches no watch. -/
theorem tends_setFormat (name : String) (format : DisplayFormat) :
    Operation.Tends Restocks (fun _ ↦ True) (setFormat name format) := by
  refine Operation.tends_bind (Operation.tends_request _) fun _ _ ↦
    Operation.tends_bind (tends_touch ?_ name) fun _ _ ↦ Operation.tends_pure trivial
  exact fun _ ↦ ⟨rfl, rfl⟩

theorem tends_deleteObject (name : String) :
    Operation.Tends Restocks (fun _ ↦ True) (deleteObject name) :=
  Operation.tends_bind (Operation.tends_request _) fun _ _ ↦
    Operation.tends_lift (Task.tends_step fun s hs ↦
      ⟨⟨hs.objects (hs.linked.removeTree name), .objects s _⟩, trivial⟩)

/-- To delete objects touches no watch. -/
theorem tends_deleteObjects (names : List String) :
    (deleteObjects names).Tends Restocks fun _ ↦ True := by
  induction names with
  | nil => exact trivial
  | cons name rest ih =>
    refine Task.tends_bind (tends_deleteObject name).forget fun result _ ↦
      Task.tends_bind ih fun later _ ↦ ?_
    cases result <;> exact trivial

/-! ### Children -/

/-- A child that is completed is still the newborn child of its parent. -/
theorem tends_completeChild {parent : String} {child : Variable} (h : child.Newborn parent) :
    (completeChild child).Tends R (Newborn parent) := by
  unfold completeChild
  extract_lets fetchPath
  have hpath : ∀ child, Newborn parent child → (fetchPath child).Tends R (Newborn parent) := by
    intro child hchild answer _
    cases answer <;> exact hchild
  split
  · exact hpath child h
  · refine Task.tends_bind (tends_askValue child.name).forget fun answer _ ↦ ?_
    cases answer with
    | ok value => exact hpath { child with value := some value } h
    | error e => exact hpath child h

/-- All the children are completed and remain newborn. -/
theorem tends_completeChildren {parent : String} {children : List Variable}
    (h : ∀ child ∈ children, child.Newborn parent) :
    (completeChildren children).Tends R fun children' ↦
      ∀ child ∈ children', child.Newborn parent := by
  induction children with
  | nil => exact h
  | cons child rest ih =>
    obtain ⟨hfirst, hothers⟩ := List.forall_mem_cons.mp h
    exact Task.tends_bind (tends_completeChild hfirst) fun child' hchild' ↦
      Task.tends_bind (ih hothers) fun rest' hrest' ↦
        Task.tends_pure (List.forall_mem_cons.mpr ⟨hchild', hrest'⟩)

/-- The names of the children that are stored are those of children. -/
theorem tends_storeChildren {parent : String} {children : List Variable}
    (h : ∀ child ∈ children, child.Newborn parent) :
    Operation.Tends Restocks (fun children ↦ ∀ child ∈ children, IsChild parent child.name)
      (storeChildren parent children) := by
  refine Operation.tends_bind (P := fun _ ↦ True) (Task.tends_step fun s hs ↦ ?_)
    fun _ _ ↦ Operation.tends_pure fun child hchild ↦ (h child hchild).1
  split
  · rename_i table htable
    have hlinked := hs.linked.setChildren (fun child hchild ↦ (h child hchild).2)
      (fun child hchild ↦ (h child hchild).1) htable
    exact ⟨⟨hs.objects hlinked, .objects s _⟩, fun _ _ ↦ trivial⟩
  · exact ⟨⟨hs, .refl s⟩, nofun⟩

/-- What is listed are children. -/
theorem tends_listChildren (parent : String) :
    Operation.Tends Restocks (fun children ↦ ∀ child ∈ children, IsChild parent child.name)
      (listChildren parent) := by
  refine Operation.tends_bind (Operation.tends_request _) fun response hnamed ↦ ?_
  have hborn : ∀ child ∈ (response.fields.tuples "children").filterMap ofChild?,
      child.Newborn parent := by
    refine fun child hchild ↦ ⟨?_, ?_⟩
    · have hmem := List.mem_map_of_mem (f := Variable.name) hchild
      exact hnamed.listed parent List.mem_cons_self child.name
        (by simpa [Exchange.listed, Request.command, Request.parts, Command.plain] using hmem)
    · obtain ⟨fields, -, hfields⟩ := List.mem_filterMap.mp hchild
      exact ofChild?_children hfields
  exact Operation.tends_bind (Operation.tends_lift (tends_completeChildren hborn))
    fun children hchildren ↦ tends_storeChildren hchildren

/-! ### Building -/

open Keeping

/-- Parts of building, of which nothing is asked about the objects that are accounted for. -/
abbrev TendsBuild (post : α → Prop) (part : Build α) : Prop :=
  Keeping.Tends Restocks (fun _ ↦ True) post part

/-- A build creates root objects only. -/
theorem tends_createTracked (expression : String) :
    TendsBuild (fun v ↦ isRootName v.name) (createTracked expression) :=
  tends_bind (tends_inBuild (tends_createObject expression)) fun _ hv ↦
    tends_bind (tends_modify fun _ _ ↦ trivial) fun _ _ ↦ tends_pure hv

/-- Whether a watch is for a root and reads roots and children of roots that it reads. -/
def RootKin (w : Watch) : Prop :=
  isRootName w.var ∧ w.Kin

/-- A builder builds watches for the objects that it is given, and they read roots and children of
roots that they read. -/
def BuildsKin (builder : Builder) : Prop :=
  ∀ v expression, TendsBuild (fun w ↦ w.var = v.name ∧ w.Kin) (builder v expression)

variable {builder : Builder}

/-- What is built from an expression has a root object at its root. -/
theorem tends_buildFrom (hbuilder : BuildsKin builder) (expression : String) :
    TendsBuild RootKin (buildFrom builder expression) := by
  refine tends_bind (tends_createTracked expression) fun v hv kept hkept ↦ ?_
  refine (hbuilder v expression kept hkept).value fun {found} hfound ↦ ⟨trivial, fun w hw ↦ ?_⟩
  obtain ⟨hvar, hkin⟩ := hfound.2 w hw
  exact ⟨hvar ▸ hv, hkin⟩

/-! ### Vectors -/

/-- Elements are built on the children of an array, one for each. -/
theorem tends_buildElements (hbuilder : BuildsKin builder) (expression : String) {parent : String}
    {children : List Variable} (h : ∀ child ∈ children, IsChild parent child.name) :
    TendsBuild (fun elements ↦ ∀ w ∈ elements, w.Kin ∧ IsChild parent w.var)
      (buildElements builder expression children) := by
  induction children with
  | nil => exact tends_pure (List.forall_mem_nil _)
  | cons child rest ih =>
    obtain ⟨hfirst, hothers⟩ := List.forall_mem_cons.mp h
    refine tends_bind (hbuilder child _) fun element helement ↦
      tends_bind (ih hothers) fun elements helements ↦ tends_pure ?_
    exact List.forall_mem_cons.mpr ⟨⟨helement.2, helement.1 ▸ hfirst⟩, helements⟩

/-- A vector keeps to its own root objects and to the children of its array. -/
theorem tends_buildVector (hbuilder : BuildsKin builder) (limit : Nat) (expression : String) :
    TendsBuild Decoder.Kin (buildVector builder limit expression) := by
  refine tends_bind (tends_createTracked _) fun length hlength ↦ ?_
  dsimp only
  split_ifs
  · exact tends_pure ⟨by simpa [Decoder.ownVars] using hlength, by simp [Decoder.members]⟩
  · refine tends_bind (tends_createTracked _) fun array harray ↦
      tends_bind (tends_inBuild (tends_listChildren array.name)) fun children hchildren ↦
        tends_bind (tends_buildElements hbuilder expression fun child hchild ↦
          hchildren child (List.mem_mergeSort.mp hchild)) fun elements helements ↦ tends_pure ?_
    refine ⟨by simp [Decoder.ownVars, hlength, harray], fun w hw ↦ ?_⟩
    obtain ⟨hkin, hchild⟩ := helements w hw
    exact ⟨hkin, .inr ⟨array.name, by simp [Decoder.ownVars], hchild⟩⟩

/-! ### Walking through the tree of a map -/

/-- The links of a walk are roots, and so are the objects of what was found at its nodes. -/
structure WalkKin (walk : Walk) : Prop where
  links : ∀ link ∈ walk.links, isRootName link
  nodes : ∀ node ∈ walk.nodes, RootKin node.key ∧ RootKin node.value

/-- What a walk has found is kin to its own objects. -/
theorem WalkKin.decoder {walk : Walk} (h : WalkKin walk) {count : String}
    (hcount : isRootName count) : (Decoder.map count walk.links walk.nodes).Kin := by
  refine ⟨List.forall_mem_cons.mpr ⟨hcount, h.links⟩, fun w hw ↦ ?_⟩
  obtain ⟨node, hnode, hw⟩ := List.mem_flatMap.mp hw
  obtain ⟨hkey, hvalue⟩ := h.nodes node hnode
  simp only [List.mem_cons, List.not_mem_nil, or_false] at hw
  rcases hw with rfl | rfl
  · exact ⟨hkey.2, .inl hkey.1⟩
  · exact ⟨hvalue.2, .inl hvalue.1⟩

/-- Parts of a walk, which keep to roots. -/
abbrev TendsWalk (post : α → Prop) (part : Walking α) : Prop :=
  Keeping.Tends Restocks WalkKin post part

/-- A part of a walk that is built on its own is kin to what it creates. -/
theorem tends_walkBuild {post : α → Prop} {part : Build α} (h : TendsBuild post part) :
    TendsWalk post (inWalk part) :=
  tends_inWalk (fun _ _ hwalk ↦ ⟨hwalk.links, hwalk.nodes⟩) h

/-- A link is a root object of the walk. -/
theorem tends_followLink (expression : String) :
    TendsWalk (fun _ ↦ True) (followLink expression) := by
  refine tends_bind (tends_walkBuild (tends_createTracked expression)) fun link hlink ↦
    tends_bind (tends_modify fun walk hwalk ↦ ⟨fun name hname ↦ ?_, hwalk.nodes⟩) fun _ _ ↦
      tends_pure trivial
  rcases List.mem_append.mp hname with hold | hnew
  · exact hwalk.links name hold
  · exact List.mem_singleton.mp hnew ▸ hlink

theorem tends_endless {K : σ → Prop} {post : α → Prop} :
    Keeping.Tends R K post (ExceptT.lift (StateT.lift Task.endless) : Keeping σ α) :=
  tends_lift trivial

/-- All objects that a descent creates are links, by induction on the fuel. -/
theorem tends_descend (fuel : Nat) (current : Option Address) (stack visited : List Address) :
    TendsWalk (fun _ ↦ True) (descend fuel current stack visited) := by
  induction fuel generalizing current stack visited with
  | zero =>
    cases current with
    | none => exact tends_pure trivial
    | some address => exact tends_endless
  | succ fuel ih =>
    cases current with
    | none => exact tends_pure trivial
    | some address =>
      unfold descend
      split_ifs
      · exact tends_pure trivial
      · exact tends_bind (tends_followLink _) fun left _ ↦ ih left _ _

/-- All objects that are created for the nodes are links or belong to keys and values, by induction
on how many nodes may come. -/
theorem tends_listNodes (hbuilder : BuildsKin builder) (key value : TypeName) (count : Nat)
    (current : Option Address) (stack visited : List Address) :
    TendsWalk (fun _ ↦ True) (listNodes builder key value count current stack visited) := by
  induction count generalizing current stack visited with
  | zero => exact tends_pure trivial
  | succ count ih =>
    refine tends_bind (tends_descend _ _ _ _) fun found _ ↦ ?_
    obtain ⟨_ | ⟨address, stack⟩, visited⟩ := found
    · exact tends_pure trivial
    · refine tends_bind (tends_walkBuild (tends_buildFrom hbuilder _)) fun first hfirst ↦
        tends_bind (tends_walkBuild (tends_buildFrom hbuilder _)) fun second hsecond ↦
          tends_bind (tends_modify fun walk hwalk ↦ ⟨hwalk.links, fun node hnode ↦ ?_⟩) fun _ _ ↦
            tends_bind (tends_followLink _) fun right _ ↦ ih right _ _
      rcases List.mem_append.mp hnode with hold | hnew
      · exact hwalk.nodes node hold
      · rw [List.mem_singleton.mp hnew]
        exact ⟨hfirst, hsecond⟩

theorem tends_walkTree (hbuilder : BuildsKin builder) (limit : Nat) (expression : String)
    (key value : TypeName) :
    TendsWalk (fun _ ↦ True) (walkTree builder limit expression key value) :=
  tends_bind (tends_followLink _) fun root _ ↦ tends_listNodes hbuilder key value limit root _ _

/-- A map keeps to the objects that its walk created. -/
theorem tends_buildMap (hbuilder : BuildsKin builder) (limit : Nat) (expression : String)
    (key value : TypeName) :
    TendsBuild Decoder.Kin (buildMap builder limit expression key value) := by
  have hwalk := tends_walkTree hbuilder limit expression key value ⟨[], [], []⟩
    ⟨List.forall_mem_nil _, List.forall_mem_nil _⟩
  refine tends_bind (tends_createTracked _) fun count hcount ↦
    tends_bind (tends_lift hwalk) fun found hfound ↦ ?_
  obtain ⟨result, walk⟩ := found
  have hdecoder : (Decoder.map count.name walk.links walk.nodes).Kin := hfound.1.decoder hcount
  cases result with
  | ok _ => exact tends_bind (tends_modify fun _ _ ↦ trivial) fun _ _ ↦ tends_pure hdecoder
  | error e =>
    exact tends_bind (tends_lift (tends_discardAll _)) fun _ _ ↦
      tends_bind (tends_modify fun _ _ ↦ trivial) fun _ _ ↦ tends_pure hdecoder

/-! ### Building a watch -/

/-- Whatever is built, by induction on how deep containers may nest. -/
theorem tends_build (limit depth : Nat) : BuildsKin (build limit depth) := by
  induction depth with
  | zero => exact fun _ _ ↦ tends_endless
  | succ depth ih =>
    intro v expression
    unfold build
    extract_lets parts finish
    have hfinish : ∀ decoder, decoder.Kin →
        TendsBuild (fun w ↦ w.var = v.name ∧ w.Kin) (finish decoder) :=
      fun decoder hdecoder ↦ tends_pure ⟨rfl, hdecoder.watch v.name expression⟩
    split
    case h_6 =>
      refine tends_bind (tends_createTracked _) fun chars hchars ↦ hfinish (.str chars.name) ?_
      exact ⟨by simpa [Decoder.ownVars] using hchars, by simp [Decoder.members]⟩
    case h_7 =>
      refine tends_bind (tends_buildFrom ih _) fun first hfirst ↦
        tends_bind (tends_buildFrom ih _) fun second hsecond ↦ hfinish (.pair first second) ?_
      refine ⟨by simp [Decoder.ownVars], fun w hw ↦ ?_⟩
      simp only [Decoder.members, List.mem_cons, List.not_mem_nil, or_false] at hw
      rcases hw with rfl | rfl
      · exact ⟨hfirst.2, .inl hfirst.1⟩
      · exact ⟨hsecond.2, .inl hsecond.1⟩
    case h_8 => exact tends_bind (tends_buildVector ih limit expression) hfinish
    case h_9 => exact tends_bind (tends_buildMap ih limit expression _ _) hfinish
    all_goals exact hfinish _ (.plain rfl rfl)

/-! ### Watches -/

/-- A watch built on root objects of its own may be registered. -/
theorem kindred_registerWatch (hs : s.Kindred) {w : Watch} (hw : RootKin w) :
    (s.registerWatch w).2.Kindred :=
  ⟨hs.linked, (hs.insert hw.1 hw.2 s.nextWatch).ordered, (hs.insert hw.1 hw.2 s.nextWatch).kin⟩

/-- Adding a watch keeps the kinship of all objects and watches. -/
theorem tends_addWatch (depth : Nat) (expression : String) :
    Operation.Tends (fun _ _ ↦ True) (fun _ ↦ True) (addWatch depth expression) := by
  refine Operation.tends_bind (P := fun _ ↦ True) (Operation.tends_lift
    (Task.tends_query (fun _ ↦ trivial) fun _ _ ↦ trivial)) fun limit _ ↦ ?_
  have hbuild := tends_buildFrom (tends_build limit depth) expression [] trivial
  refine Operation.tends_bind (Operation.tends_lift
    (hbuild.mono (fun _ _ _ ↦ trivial) fun _ h ↦ h)) fun built hbuilt ↦ ?_
  obtain ⟨result, created⟩ := built
  cases result with
  | ok watch =>
    exact Operation.tends_lift (Task.tends_step fun s hs ↦
      ⟨⟨kindred_registerWatch hs (hbuilt.2 watch rfl), trivial⟩, trivial⟩)
  | error e =>
    have hdiscard := (tends_discardAll created).mono (fun _ _ _ ↦ trivial) fun _ h ↦ h
    exact Operation.tends_bind (Operation.tends_lift hdiscard) fun _ _ ↦ Operation.tends_throw

/-- Removing a watch keeps the kinship of all objects and watches. -/
theorem tends_removeWatch (id : Nat) :
    Operation.Tends (fun _ _ ↦ True) (fun _ ↦ True) (removeWatch id) := by
  refine Operation.tends_bind (P := fun _ ↦ True) (Operation.tends_lift (Task.tends_step fun s hs ↦
    ⟨⟨hs.remove id, trivial⟩, trivial⟩)) fun removed _ ↦ ?_
  cases removed with
  | none => exact Operation.tends_pure trivial
  | some watch =>
    have hdelete := (tends_deleteObjects (watch.var :: watch.derivedRoots)).mono
      (fun _ _ _ ↦ trivial) fun _ h ↦ h
    refine Operation.tends_bind (Operation.tends_lift hdelete) fun failure _ ↦ ?_
    cases failure with
    | none => exact Operation.tends_pure trivial
    | some e => exact Operation.tends_throw

/-- A watch is rebuilt for its own object, which is a root. -/
theorem tends_rebuildWatch (depth id : Nat) :
    Operation.Tends Restocks (fun _ ↦ True) (rebuildWatch depth id) := by
  refine Operation.tends_bind (P := fun registered ↦ ∀ w ∈ registered, RootKin w)
    (Operation.tends_lift (Task.tends_query .refl fun s hs w hw ↦ hs.of_get? hw))
    fun registered hregistered ↦ ?_
  cases registered with
  | none => exact Operation.tends_pure trivial
  | some old =>
    have hold : isRootName old.var := (hregistered old rfl).1
    refine Operation.tends_bind (Operation.tends_lift (tends_deleteObjects _)) fun _ _ ↦ ?_
    refine Operation.tends_bind (P := fun found ↦ ∀ v ∈ found.2, v.name = old.var)
      (Operation.tends_lift (Task.tends_query .refl fun s hs v hv ↦ hs.linked.keyed old.var v hv))
      fun found hfound ↦ ?_
    obtain ⟨limit, object⟩ := found
    cases object with
    | none => exact Operation.tends_throw
    | some v =>
      have hname : v.name = old.var := hfound v rfl
      refine Operation.tends_bind
        (Operation.tends_lift (tends_build limit depth v old.expression [] trivial))
        fun built hbuilt ↦ ?_
      obtain ⟨result, created⟩ := built
      cases result with
      | ok watch =>
        obtain ⟨hvar, hkin⟩ := hbuilt.2 watch rfl
        have hroot : isRootName watch.var := by rwa [hvar, hname]
        exact Operation.tends_lift (Task.tends_update (fun s hs ↦
          ⟨hs.insert hroot hkin id, .insert s id watch⟩) trivial)
      | error e =>
        exact Operation.tends_bind (Operation.tends_lift (tends_discardAll created)) fun _ _ ↦
          Operation.tends_throw

/-- The rebuilds of some watches one after another. -/
theorem tends_rebuilds (depth : Nat) (ids : List Nat) :
    (ids.forM fun id ↦ do let _ ← (rebuildWatch depth id).run).Tends Restocks fun _ ↦ True :=
  Task.tends_forM ids fun id ↦
    Task.tends_bind (tends_rebuildWatch depth id).forget fun _ _ ↦ Task.tends_pure trivial

/-- Changes that the debugger lists keep the kinship of names. -/
theorem kindred_recordChanges (hs : s.Kindred) (changes : List Fields) :
    (s.recordChanges changes).2.Kindred := by
  have hlinked : (applyChanges changes s.objects).2.Linked := by
    rw [VariableTable.applyChanges_eq]
    exact hs.linked.afterAll changes
  exact (hs.objects hlinked).of_holdings (holdings_recordChanges s changes)

/-- An update keeps the kinship of all objects and watches. -/
theorem tends_updateObjects (depth : Nat) :
    Operation.Tends (fun _ _ ↦ True) (fun _ ↦ True) (updateObjects depth) := by
  have hrebuilds := fun ids ↦ (tends_rebuilds depth ids).mono (fun _ _ _ ↦ trivial) fun _ h ↦ h
  have hrefresh : ∀ changed,
      (refreshWatches depth changed).Tends (fun _ _ ↦ True) fun _ ↦ True := fun changed ↦
    Task.tends_bind (P := fun _ ↦ True) (Task.tends_query (fun _ ↦ trivial) fun _ _ ↦ trivial)
      fun found _ ↦ Task.tends_bind (hrebuilds found.1) fun _ _ ↦ Task.tends_update (fun s hs ↦
        ⟨hs.of_holdings (holdings_foldl holdings_reportWatch _ s), trivial⟩) trivial
  refine Operation.tends_bind (Operation.tends_request _) fun response _ ↦ ?_
  refine Operation.tends_bind (P := fun _ ↦ True) (Operation.tends_lift (Task.tends_step fun s hs ↦
    ⟨⟨kindred_recordChanges hs _, trivial⟩, trivial⟩)) fun updated _ ↦ ?_
  split_ifs
  · exact Operation.tends_pure trivial
  · exact Operation.tends_bind (Operation.tends_lift (hrefresh _)) fun _ _ ↦
      Operation.tends_pure trivial

end Session

end DebugLink
