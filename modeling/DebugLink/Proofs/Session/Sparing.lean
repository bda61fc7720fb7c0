import DebugLink.Proofs.Session.Building
import DebugLink.Proofs.Session.Interleaving
import DebugLink.Proofs.Session.Updating

/-!
Updates spare a watch that was removed. What a rebuild creates and lists goes with objects that have
new names, and a watch is rebuilt only if it is found in the registry and is registered again only
under its own number. So whatever state the session is in, no step of an update brings the watch or
its objects back (`Session.spares_updateObjects`).
-/

set_option autoImplicit false

namespace DebugLink

open Variable

variable {α β σ : Type} {id : Nat} {roots : List String} {name : String}

/-! ### Operations -/

namespace Operation

/-- An operation spares a watch, and so much holds of its value if it succeeds. -/
def Spares (id : Nat) (roots : List String) (post : α → Prop) (operation : Operation α) : Prop :=
  operation.run.Spares id roots fun result ↦ ∀ value, result = .ok value → post value

variable {post P : α → Prop} {Q : β → Prop}

theorem spares_pure {value : α} (h : post value) : Spares id roots post (pure value) := by
  rintro _ ⟨⟩
  exact h

theorem spares_throw {e : SessionError} : Spares id roots post (throw e : Operation α) :=
  nofun

/-- What follows an operation may rely on what its value is like. -/
theorem spares_bind {operation : Operation α} {f : α → Operation β}
    (h : Spares id roots P operation) (hf : ∀ value, P value → Spares id roots Q (f value)) :
    Spares id roots Q (operation >>= f) := by
  refine Task.spares_bind h fun result hresult ↦ ?_
  cases result with
  | ok value => exact hf value (hresult value rfl)
  | error e => exact Task.spares_pure nofun

theorem spares_lift {task : Task α} (h : task.Spares id roots post) :
    Spares id roots post (Operation.lift task) := by
  refine Task.spares_bind h fun value hvalue ↦ Task.spares_pure ?_
  rintro _ ⟨⟩
  exact hvalue

/-- A request spares all watches and objects; what it finds fits the roots. -/
theorem spares_request (r : Request) : (Operation.request r).run.Spares id roots fun result ↦
    Exchange.Fits roots ⟨r.command, result⟩ :=
  fun _ hfits ↦ hfits

/-- What a response says fits the roots. -/
theorem spares_request_ok (r : Request) : Spares id roots (fun response ↦
    Exchange.Fits roots ⟨r.command, .ok response⟩) (Operation.request r) :=
  (spares_request r).mono fun result hfits response hok ↦ by rwa [hok] at hfits

theorem spares_textOf (response : Response) (name : String) (missing : Missing) :
    Spares id roots (fun _ ↦ True) (textOf response name missing) := by
  unfold textOf
  split
  · exact spares_pure trivial
  · exact spares_throw

end Operation

/-! ### Operations that keep something at hand -/

namespace Keeping

/-- An operation spares a watch whatever is at hand, and so much holds of its value if it
succeeds. -/
def Spares (id : Nat) (roots : List String) (post : α → Prop) (operation : Keeping σ α) : Prop :=
  ∀ kept, (operation.run.run kept).Spares id roots fun found ↦
    ∀ value, found.1 = .ok value → post value

variable {post P : α → Prop} {Q : β → Prop}

theorem spares_pure {value : α} (h : post value) :
    Spares id roots post (pure value : Keeping σ α) := by
  rintro kept _ ⟨⟩
  exact h

/-- What is at hand is handed on, and is no part of what is spared. -/
theorem spares_bind {operation : Keeping σ α} {f : α → Keeping σ β}
    (h : Spares id roots P operation) (hf : ∀ value, P value → Spares id roots Q (f value)) :
    Spares id roots Q (operation >>= f) := by
  intro kept
  show ((operation.run.run kept >>= _ : Task (Except SessionError β × σ))).Spares id roots _
  refine Task.spares_bind (h kept) fun found hfound ↦ ?_
  obtain ⟨result, kept'⟩ := found
  cases result with
  | ok value => exact hf value (hfound value rfl) kept'
  | error e => exact Task.spares_pure nofun

/-- What is at hand may change freely. -/
theorem spares_modify (f : σ → σ) {post : Unit → Prop} (h : post ()) :
    Spares id roots post (modify f : Keeping σ Unit) := by
  rintro kept _ ⟨⟩
  exact h

/-- A task that cannot fail. -/
theorem spares_lift {task : Task α} (h : task.Spares id roots post) :
    Spares id roots post (ExceptT.lift (StateT.lift task) : Keeping σ α) := by
  intro kept
  show ((task >>= fun value ↦ pure (value, kept)) >>= fun found ↦
    pure (Except.ok found.1, found.2) : Task (Except SessionError α × σ)).Spares id roots _
  refine Task.spares_bind (P := fun found ↦ post found.1) (Task.spares_bind h fun value hvalue ↦
    Task.spares_pure hvalue) fun found hfound ↦ Task.spares_pure ?_
  rintro _ ⟨⟩
  exact hfound

/-- An operation in a build spares what it spares by itself. -/
theorem spares_inBuild {operation : Operation α} (h : Operation.Spares id roots post operation) :
    Spares id roots post (Session.inBuild operation) :=
  fun _ ↦ Task.spares_bind h fun _ hresult ↦ Task.spares_pure hresult

/-- A part of a walk spares what it spares by itself. -/
theorem spares_inWalk {build : Build α} (h : Spares id roots post build) :
    Spares id roots post (Session.inWalk build) :=
  fun walk ↦ Task.spares_bind (h walk.created) fun _ hfound ↦ Task.spares_pure hfound

end Keeping

namespace Session

/-! ### Objects -/

/-- To discard an object spares the watch if the debugger's answer fits. -/
theorem spares_discardObject (name : String) :
    (discardObject name).Spares id roots fun _ ↦ True :=
  Task.spares_bind (Operation.spares_request _) fun _ _ ↦
    Task.spares_update (fun _ hs ↦ .of_subset hs
      (VariableTable.known_foldl_removeTree_subset [name] _)) trivial

/-- To discard objects one after another spares the watch. -/
theorem spares_discardAll (names : List String) :
    (discardAll names).Spares id roots fun _ ↦ True :=
  Task.spares_forM fun name _ ↦ spares_discardObject name

/-- A value that is asked for is not stored. -/
theorem spares_askValue (name : String) :
    Operation.Spares id roots (fun _ ↦ True) (askValue name) :=
  Operation.spares_bind (Operation.spares_request_ok _) fun response _ ↦
    Operation.spares_textOf response _ _

/-- An object with another root is stored. -/
theorem spares_storeObject {v : Variable} (h : rootOf v.name ∉ roots) :
    Operation.Spares id roots (fun stored ↦ rootOf stored.name ∉ roots) (storeObject v) := by
  refine Operation.spares_bind (P := fun _ ↦ True) (Operation.spares_lift
    (Task.spares_update (fun s hs ↦ ⟨hs, fun name hname hroot ↦ ?_⟩) trivial))
    fun _ _ ↦ Operation.spares_pure h
  rcases VariableTable.mem_known_insert.mp hname with hold | rfl
  · exact hold
  · exact absurd hroot h

/-- What is created goes with a new root. -/
theorem spares_createObject (expression : String) :
    Operation.Spares id roots (fun v ↦ rootOf v.name ∉ roots) (createObject expression) := by
  refine Operation.spares_bind (Operation.spares_request_ok _) fun response hfits ↦ ?_
  refine Operation.spares_bind (P := fun v ↦ rootOf v.name ∉ roots) ?_ fun v hv ↦ ?_
  · intro v hv
    have hname := (ofCreate_eq_ok hv).1
    rw [rootOf_eq_self (hfits.proper.created v.name hname)]
    exact hfits.fresh v.name hname
  · split
    · exact spares_storeObject hv
    · refine Operation.spares_bind (P := fun _ ↦ True)
        (Operation.spares_lift ((spares_askValue v.name).mono fun _ _ ↦ trivial)) fun answer _ ↦ ?_
      cases answer with
      | ok value => exact spares_storeObject (v := { v with value := some value }) hv
      | error e =>
        exact Operation.spares_bind (Operation.spares_lift (spares_discardObject v.name)) fun _ _ ↦
          Operation.spares_throw

/-- A deletion that fits succeeds. -/
theorem spares_deleteObject (name : String) :
    (deleteObject name).run.Spares id roots fun result ↦ ∃ names, result = .ok names := by
  refine Task.spares_bind (Operation.spares_request _) fun result hfits ↦ ?_
  obtain ⟨response, rfl⟩ := hfits.proper.deleted rfl
  exact fun s hs ↦ ⟨.of_subset hs (VariableTable.known_foldl_removeTree_subset [name] _), _, rfl⟩

/-- Deletions that fit all succeed. -/
theorem spares_deleteObjects (names : List String) :
    (deleteObjects names).Spares id roots fun failure ↦ failure = none := by
  induction names with
  | nil => exact rfl
  | cons name rest ih =>
    refine Task.spares_bind (spares_deleteObject name) fun result hresult ↦
      Task.spares_bind ih fun later hlater ↦ ?_
    obtain ⟨gone, rfl⟩ := hresult
    exact hlater

/-! ### Children -/

/-- A child that is completed keeps its name. -/
theorem spares_completeChild (child : Variable) :
    (completeChild child).Spares id roots fun child' ↦ child'.name = child.name := by
  unfold completeChild
  extract_lets fetchPath
  have hpath : ∀ child,
      (fetchPath child).Spares id roots fun child' ↦ child'.name = child.name := by
    intro child answer _
    cases answer <;> exact rfl
  split
  · exact hpath child
  · refine Task.spares_bind (spares_askValue child.name) fun answer _ ↦ ?_
    cases answer with
    | ok value => exact hpath { child with value := some value }
    | error e => exact hpath child

/-- Children that are completed keep their names. -/
theorem spares_completeChildren (children : List Variable) :
    (completeChildren children).Spares id roots fun children' ↦
      children'.map Variable.name = children.map Variable.name := by
  induction children with
  | nil => exact rfl
  | cons child rest ih =>
    refine Task.spares_bind (spares_completeChild child) fun child' hname ↦
      Task.spares_bind ih fun rest' hnames ↦ Task.spares_pure ?_
    rw [List.map_cons, List.map_cons, hname, hnames]

/-- Children of another root are stored. -/
theorem spares_storeChildren {parent : String} {children : List Variable}
    (hchildren : ∀ child ∈ children, rootOf child.name ∉ roots) :
    Operation.Spares id roots (fun _ ↦ True) (storeChildren parent children) := by
  refine Operation.spares_bind (P := fun _ ↦ True) (Task.spares_step fun s hs ↦ ?_)
    fun _ _ ↦ Operation.spares_pure trivial
  split
  · rename_i table htable
    refine ⟨⟨hs, fun name hname hroot ↦ ?_⟩, fun _ _ ↦ trivial⟩
    refine (VariableTable.mem_known_of_setChildren htable hname).resolve_right fun hmem ↦ ?_
    obtain ⟨child, hchild, rfl⟩ := List.mem_map.mp hmem
    exact hchildren child hchild hroot
  · exact ⟨.of_subset hs (List.Subset.refl _), nofun⟩

/-- Children go with the root of their parent. -/
theorem spares_listChildren {parent : String} (hparent : rootOf parent ∉ roots) :
    Operation.Spares id roots (fun _ ↦ True) (listChildren parent) := by
  refine Operation.spares_bind (Operation.spares_request_ok _) fun response hfits ↦ ?_
  refine Operation.spares_bind (Operation.spares_lift (spares_completeChildren _))
    fun children hnames ↦ spares_storeChildren fun child hchild ↦ ?_
  have hmem := List.mem_map_of_mem (f := Variable.name) hchild
  rw [hnames] at hmem
  have hbelow := hfits.proper.listed parent List.mem_cons_self child.name
    (by simpa [Exchange.listed, Request.command, Request.parts, Command.plain] using hmem)
  rwa [rootOf_of_isBelow hbelow]

/-! ### Building -/

open Keeping

/-- An object that is created has a root of its own. -/
theorem spares_createTracked (expression : String) :
    Keeping.Spares id roots (fun v ↦ rootOf v.name ∉ roots) (createTracked expression) :=
  spares_bind (spares_inBuild (spares_createObject expression)) fun _ hv ↦
    spares_bind (P := fun _ ↦ True) (spares_modify _ trivial) fun _ _ ↦ spares_pure hv

/-- A builder spares a watch whatever it builds. -/
def SparesBuilding (id : Nat) (roots : List String) (builder : Builder) : Prop :=
  ∀ v expression, Keeping.Spares id roots (fun _ ↦ True) (builder v expression)

variable {builder : Builder}

/-- What is built from an expression has a root of its own. -/
theorem spares_buildFrom (hbuilder : SparesBuilding id roots builder) (expression : String) :
    Keeping.Spares id roots (fun _ ↦ True) (buildFrom builder expression) :=
  spares_bind (spares_createTracked expression) fun v _ ↦ hbuilder v expression

/-- Elements are built one after another, each sparing the watch. -/
theorem spares_buildElements (hbuilder : SparesBuilding id roots builder) (expression : String)
    (children : List Variable) :
    Keeping.Spares id roots (fun _ ↦ True) (buildElements builder expression children) := by
  induction children with
  | nil => exact spares_pure trivial
  | cons child rest ih =>
    exact spares_bind (hbuilder child _) fun _ _ ↦ spares_bind ih fun _ _ ↦ spares_pure trivial

/-- A vector is built on root objects of its own. -/
theorem spares_buildVector (hbuilder : SparesBuilding id roots builder) (limit : Nat)
    (expression : String) :
    Keeping.Spares id roots (fun _ ↦ True) (buildVector builder limit expression) := by
  refine spares_bind (spares_createTracked _) fun length _ ↦ ?_
  dsimp only
  split_ifs
  · exact spares_pure trivial
  · exact spares_bind (spares_createTracked _) fun array harray ↦
      spares_bind (spares_inBuild (spares_listChildren harray)) fun children _ ↦
        spares_bind (spares_buildElements hbuilder expression _) fun _ _ ↦ spares_pure trivial

/-- A link is an object with a root of its own. -/
theorem spares_followLink (expression : String) :
    Keeping.Spares id roots (fun _ ↦ True) (followLink expression) :=
  spares_bind (spares_inWalk (spares_createTracked expression)) fun _ _ ↦
    spares_bind (P := fun _ ↦ True) (spares_modify _ trivial) fun _ _ ↦ spares_pure trivial

theorem spares_endless {post : α → Prop} :
    Keeping.Spares id roots post (ExceptT.lift (StateT.lift Task.endless) : Keeping σ α) :=
  spares_lift trivial

/-- A descent creates links only, by induction on the fuel. -/
theorem spares_descend (fuel : Nat) (current : Option Address) (stack visited : List Address) :
    Keeping.Spares id roots (fun _ ↦ True) (descend fuel current stack visited) := by
  induction fuel generalizing current stack visited with
  | zero =>
    cases current with
    | none => exact spares_pure trivial
    | some address => exact spares_endless
  | succ fuel ih =>
    cases current with
    | none => exact spares_pure trivial
    | some address =>
      unfold descend
      split_ifs
      · exact spares_pure trivial
      · exact spares_bind (spares_followLink _) fun left _ ↦ ih left _ _

/-- The nodes are listed one after another, by induction on how many may come. -/
theorem spares_listNodes (hbuilder : SparesBuilding id roots builder) (key value : TypeName)
    (count : Nat) (current : Option Address) (stack visited : List Address) :
    Keeping.Spares id roots (fun _ ↦ True)
      (listNodes builder key value count current stack visited) := by
  induction count generalizing current stack visited with
  | zero => exact spares_pure trivial
  | succ count ih =>
    refine spares_bind (spares_descend _ _ _ _) fun found _ ↦ ?_
    obtain ⟨_ | ⟨address, stack⟩, visited⟩ := found
    · exact spares_pure trivial
    · exact spares_bind (spares_inWalk (spares_buildFrom hbuilder _)) fun _ _ ↦
        spares_bind (spares_inWalk (spares_buildFrom hbuilder _)) fun _ _ ↦
          spares_bind (P := fun _ ↦ True) (spares_modify _ trivial) fun _ _ ↦
            spares_bind (spares_followLink _) fun right _ ↦ ih right _ _

/-- A map is built on root objects of its own, also if its walk fails. -/
theorem spares_buildMap (hbuilder : SparesBuilding id roots builder) (limit : Nat)
    (expression : String) (key value : TypeName) :
    Keeping.Spares id roots (fun _ ↦ True) (buildMap builder limit expression key value) := by
  have hwalk : Keeping.Spares id roots (fun _ ↦ True)
      (walkTree builder limit expression key value) :=
    spares_bind (spares_followLink _) fun root _ ↦
      spares_listNodes hbuilder key value limit root _ _
  refine spares_bind (spares_createTracked _) fun count _ ↦
    spares_bind (spares_lift ((hwalk _).mono (fun _ _ ↦ trivial))) fun found _ ↦ ?_
  obtain ⟨result, walk⟩ := found
  cases result with
  | ok _ =>
    exact spares_bind (P := fun _ ↦ True) (spares_modify _ trivial) fun _ _ ↦ spares_pure trivial
  | error e =>
    exact spares_bind (spares_lift (spares_discardAll _)) fun _ _ ↦
      spares_bind (P := fun _ ↦ True) (spares_modify _ trivial) fun _ _ ↦ spares_pure trivial

/-- Whatever is built, by induction on how deep containers may nest. -/
theorem spares_build (limit depth : Nat) : SparesBuilding id roots (build limit depth) := by
  induction depth with
  | zero => exact fun _ _ ↦ spares_endless
  | succ depth ih =>
    intro v expression
    unfold build
    extract_lets parts finish
    have hfinish : ∀ decoder, Keeping.Spares id roots (fun _ ↦ True) (finish decoder) :=
      fun _ ↦ spares_pure trivial
    split
    case h_6 => exact spares_bind (spares_createTracked _) fun chars _ ↦ hfinish (.str chars.name)
    case h_7 =>
      exact spares_bind (spares_buildFrom ih _) fun first _ ↦
        spares_bind (spares_buildFrom ih _) fun second _ ↦ hfinish (.pair first second)
    case h_8 =>
      exact spares_bind (spares_buildVector ih limit expression) fun decoder _ ↦ hfinish decoder
    case h_9 =>
      exact spares_bind (spares_buildMap ih limit expression _ _) fun decoder _ ↦ hfinish decoder
    all_goals exact hfinish _

/-! ### Updates -/

/-- A watch that is not registered is not rebuilt, and any other one is registered under its own
number. -/
theorem spares_rebuildWatch (depth other : Nat) :
    (rebuildWatch depth other).run.Spares id roots fun _ ↦ True := by
  have hrebuild : Operation.Spares id roots (fun _ ↦ True) (rebuildWatch depth other) := by
    refine Operation.spares_bind (P := fun registered ↦ other = id → registered = none)
      (Operation.spares_lift (Task.spares_query fun s hs heq ↦ heq ▸ hs))
      fun registered hregistered ↦ ?_
    split
    · exact Operation.spares_pure trivial
    · have hne : other ≠ id := fun heq ↦ nomatch hregistered heq
      refine Operation.spares_bind (Operation.spares_lift (spares_deleteObjects _)) fun _ _ ↦ ?_
      refine Operation.spares_bind (P := fun _ ↦ True)
        (Operation.spares_lift (Task.spares_query fun _ _ ↦ trivial)) fun found _ ↦ ?_
      obtain ⟨limit, object⟩ := found
      cases object with
      | none => exact Operation.spares_throw
      | some v =>
        refine Operation.spares_bind (P := fun _ ↦ True) (Operation.spares_lift
          ((spares_build limit depth v _ []).mono fun _ _ ↦ trivial)) fun built _ ↦ ?_
        obtain ⟨result, created⟩ := built
        cases result with
        | ok watch =>
          exact Operation.spares_lift (Task.spares_update (fun s hs ↦
            ⟨NumberedTable.get?_insert_of_ne hs hne, fun _ hname _ ↦ hname⟩) trivial)
        | error e =>
          exact Operation.spares_bind (Operation.spares_lift (spares_discardAll created)) fun _ _ ↦
            Operation.spares_throw
  exact hrebuild.mono fun _ _ ↦ trivial

/-- Refreshing the watches spares one that is not rebuilt. -/
theorem spares_refreshWatches (depth : Nat) (changed : List String) :
    (refreshWatches depth changed).Spares id roots fun _ ↦ True := by
  refine Task.spares_bind (P := fun _ ↦ True) (Task.spares_query fun _ _ ↦ trivial) fun found _ ↦ ?_
  refine Task.spares_bind (Task.spares_forM fun other _ ↦
    Task.spares_bind (spares_rebuildWatch depth other) fun _ _ ↦ Task.spares_pure trivial)
    fun _ _ ↦ Task.spares_update (fun s hs ↦ ?_) trivial
  have hheld := holdings_foldl holdings_reportWatch
    ((found.2 ++ found.1.filter fun id ↦ !found.2.contains id).mergeSort (· ≤ ·)) s
  obtain ⟨-, hobjects, hwatches, -⟩ := holdings_eq_iff.mp hheld
  exact .of_subset (hwatches ▸ hs) (hobjects ▸ List.Subset.refl _)

/-- An update spares a watch that is not rebuilt. -/
theorem spares_updateObjects (depth : Nat) :
    (updateObjects depth).run.Spares id roots fun _ ↦ True := by
  have hupdate : Operation.Spares id roots (fun _ ↦ True) (updateObjects depth) := by
    refine Operation.spares_bind (Operation.spares_request_ok _) fun response _ ↦ ?_
    refine Operation.spares_bind (P := fun _ ↦ True) (Operation.spares_lift
      (Task.spares_step fun s hs ↦ ⟨?_, trivial⟩)) fun updated _ ↦ ?_
    · have hheld := holdings_recordChanges s (response.fields.tuples "changelist")
      have hwatches :
          (s.recordChanges (response.fields.tuples "changelist")).2.watches = s.watches :=
        congrArg Holdings.watches hheld
      have hobjects : (s.recordChanges (response.fields.tuples "changelist")).2.objects =
          (applyChanges (response.fields.tuples "changelist") s.objects).2 :=
        congrArg Holdings.objects hheld
      exact .of_subset (hwatches ▸ hs) (hobjects ▸ known_applyChanges_subset _ _)
    · split_ifs
      · exact Operation.spares_pure trivial
      · exact Operation.spares_bind (Operation.spares_lift (spares_refreshWatches depth _))
          fun _ _ ↦ Operation.spares_pure trivial
  exact hupdate.mono fun _ _ ↦ trivial

end Session

end DebugLink
