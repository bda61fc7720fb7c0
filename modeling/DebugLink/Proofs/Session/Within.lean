import DebugLink.Proofs.Session.Building

/-!
What the changes that a task makes have in common. A task is within a relation if each of its
changes relates the session before to the session after (`Task.Within`), whatever the answers to its
commands are and whatever happens between its steps. Operations on variable objects and watches are
within every relation that looks neither at these nor at the events about them
(`Session.Indifferent`).
-/

set_option autoImplicit false

namespace DebugLink

variable {α β σ : Type} {R : Session → Session → Prop}

/-! ### Tasks -/

namespace Task

/-- Each change of the session that a task makes is within a relation. -/
def Within (R : Session → Session → Prop) : Task α → Prop
  | done _ => True
  | act change next => ∀ s, R s (change s) ∧ (next s).Within R
  | exchange _ next => ∀ answer, (next answer).Within R
  | endless => True

/-- A task that is done changes nothing any more. -/
theorem within_pure (value : α) : (pure value : Task α).Within R :=
  trivial

/-- One task after another changes the session only as the two of them do. -/
theorem within_bind {task : Task α} {f : α → Task β} (h : task.Within R)
    (hf : ∀ value, (f value).Within R) : (task >>= f).Within R := by
  show (task.bind f).Within R
  induction task with
  | done value => exact hf value
  | act change next ih => exact fun s ↦ (h s).imp_right (ih s)
  | exchange command next ih => exact fun answer ↦ ih answer (h answer)
  | endless => trivial

/-- Looking at the session leaves it as it is. -/
theorem within_query {f : Session → α} (hrefl : ∀ s, R s s) : (query f).Within R :=
  fun s ↦ ⟨hrefl s, trivial⟩

theorem within_update {f : Session → Session} (h : ∀ s, R s (f s)) : (update f).Within R :=
  fun s ↦ ⟨h s, trivial⟩

theorem within_step {f : Session → α × Session} (h : ∀ s, R s (f s).2) : (step f).Within R :=
  fun s ↦ ⟨h s, trivial⟩

/-- The same is done for each of some items, one after another. -/
theorem within_forM {f : α → Task Unit} (h : ∀ item, (f item).Within R) (items : List α) :
    (items.forM f).Within R := by
  induction items with
  | nil => exact trivial
  | cons item rest ih => exact within_bind (h item) fun _ ↦ ih

end Task

/-! ### Operations -/

namespace Operation

/-- Each change of the session that an operation makes is within a relation. -/
def Within (R : Session → Session → Prop) (operation : Operation α) : Prop :=
  operation.run.Within R

theorem within_pure (value : α) : Within R (pure value : Operation α) :=
  trivial

/-- An operation that fails changes nothing any more. -/
theorem within_throw (e : SessionError) : Within R (throw e : Operation α) :=
  trivial

/-- What follows an operation that fails is not done, so its changes do not come into it. -/
theorem within_bind {operation : Operation α} {f : α → Operation β} (h : Within R operation)
    (hf : ∀ value, Within R (f value)) : Within R (operation >>= f) := by
  refine Task.within_bind h fun result ↦ ?_
  cases result with
  | ok value => exact hf value
  | error e => exact trivial

theorem within_lift {task : Task α} (h : task.Within R) : Within R (Operation.lift task) :=
  Task.within_bind h fun _ ↦ trivial

theorem within_update {f : Session → Session} (h : ∀ s, R s (f s)) :
    Within R (Operation.update f) :=
  within_lift (Task.within_update h)

/-- The change that a command makes is not one of the task: the session submits it. -/
theorem within_execute (command : Command) : Within R (execute command) :=
  fun _ ↦ trivial

theorem within_request (r : Request) : Within R (request r) :=
  within_execute r.command

/-- What is looked up in a response is at hand already. -/
theorem within_textOf (response : Response) (name : String) (missing : Missing) :
    Within R (textOf response name missing) := by
  unfold textOf
  split
  · exact within_pure _
  · exact within_throw _

end Operation

/-! ### Operations that keep something at hand -/

namespace Keeping

/-- Each change of the session that an operation makes is within a relation, whatever is at hand. -/
def Within (R : Session → Session → Prop) (operation : Keeping σ α) : Prop :=
  ∀ kept, (operation.run.run kept).Within R

theorem within_pure (value : α) : Within R (pure value : Keeping σ α) :=
  fun _ ↦ trivial

/-- What is at hand is handed on from one operation to the next, and is no part of the session. -/
theorem within_bind {operation : Keeping σ α} {f : α → Keeping σ β} (h : Within R operation)
    (hf : ∀ value, Within R (f value)) : Within R (operation >>= f) := by
  intro kept
  show ((operation.run.run kept >>= _ : Task (Except SessionError β × σ))).Within R
  refine Task.within_bind (h kept) fun found ↦ ?_
  obtain ⟨result, kept'⟩ := found
  cases result with
  | ok value => exact hf value kept'
  | error e => exact trivial

/-- What is at hand may change freely. -/
theorem within_modify (f : σ → σ) : Within R (modify f : Keeping σ Unit) :=
  fun _ ↦ trivial

theorem within_lift {task : Task α} (h : task.Within R) :
    Within R (ExceptT.lift (StateT.lift task) : Keeping σ α) := by
  intro kept
  show ((task >>= fun value ↦ pure (value, kept)) >>= fun found ↦
    pure (Except.ok found.1, found.2) : Task (Except SessionError α × σ)).Within R
  exact Task.within_bind (Task.within_bind h fun _ ↦ trivial) fun _ ↦ trivial

/-- What never comes to an end has changed nothing before. -/
theorem within_endless : Within R (ExceptT.lift (StateT.lift Task.endless) : Keeping σ α) :=
  within_lift trivial

/-- The names created so far are noted after the operation has ended. -/
theorem within_inBuild {operation : Operation α} (h : Operation.Within R operation) :
    Within R (Session.inBuild operation) :=
  fun _ ↦ Task.within_bind h fun _ ↦ trivial

/-- What a walk has found so far is noted after the part of it has ended. -/
theorem within_inWalk {build : Build α} (h : Within R build) : Within R (Session.inWalk build) :=
  fun walk ↦ Task.within_bind (h walk.created) fun _ ↦ trivial

end Keeping

/-! ### Variable objects and watches -/

/-- Whether an event is about variable objects or watches. -/
def Event.AboutWatches : Event → Prop
  | watchUpdated _ => True
  | rootUpdated _ => True
  | watchDecoded _ _ => True
  | _ => False

namespace Session

/-- A value is asked for and not stored. -/
theorem within_askValue (name : String) : Operation.Within R (askValue name) :=
  Operation.within_bind (Operation.within_request _) fun response ↦
    Operation.within_textOf response _ _

/-- Completing a child asks for its value and its path; it is stored later. -/
theorem within_completeChild (child : Variable) : (completeChild child).Within R := by
  unfold completeChild
  extract_lets fetchPath
  have hpath : ∀ child, (fetchPath child).Within R := by
    intro child answer
    cases answer <;> exact trivial
  split
  · exact hpath child
  · refine Task.within_bind (within_askValue child.name) fun answer ↦ ?_
    cases answer with
    | ok value => exact hpath { child with value := some value }
    | error e => exact hpath child

/-- The children are completed one after another, before any of them is stored. -/
theorem within_completeChildren (children : List Variable) :
    (completeChildren children).Within R := by
  induction children with
  | nil => exact trivial
  | cons child rest ih =>
    exact Task.within_bind (within_completeChild child) fun _ ↦
      Task.within_bind ih fun _ ↦ Task.within_pure _

/-- A relation that looks neither at variable objects and watches nor at the events about them. -/
structure Indifferent (R : Session → Session → Prop) : Prop where
  trans : ∀ {s s₁ s'}, R s s₁ → R s₁ s' → R s s'
  hold : ∀ s objects watches nextWatch, R s { s with objects, watches, nextWatch }
  report : ∀ s event, event.AboutWatches → R s (s.emit event)

namespace Indifferent

variable (h : Indifferent R)
include h

/-- To hold what is held already changes nothing. -/
theorem refl (s : Session) : R s s :=
  h.hold s s.objects s.watches s.nextWatch

theorem objects (s : Session) (objects : VariableTable) : R s { s with objects } :=
  h.hold s objects s.watches s.nextWatch

theorem watches (s : Session) (watches : WatchRegistry) : R s { s with watches } :=
  h.hold s s.objects watches s.nextWatch

/-- What holds of the change for each item holds of all of them in a row. -/
theorem foldl {f : Session → α → Session} {items : List α}
    (hf : ∀ s, ∀ item ∈ items, R s (f s item)) (s : Session) : R s (items.foldl f s) :=
  List.foldlRecOn items f (h.refl s) fun _ hbefore item hitem ↦ h.trans hbefore (hf _ item hitem)

/-! ### Objects -/

/-- Whether the debugger deletes the object or not, it leaves the table. -/
theorem within_discardObject (name : String) : (discardObject name).Within R :=
  Task.within_bind (Operation.within_request _) fun _ ↦ Task.within_update fun s ↦ h.objects s _

/-- The objects are discarded from the last one on. -/
theorem within_discardAll (names : List String) : (discardAll names).Within R :=
  Task.within_forM h.within_discardObject names.reverse

/-- An object that is stored is reported. -/
theorem within_storeObject (v : Variable) : Operation.Within R (storeObject v) :=
  Operation.within_bind (Operation.within_update fun s ↦
    h.trans (h.objects s _) (h.report _ (.watchUpdated v) trivial)) fun _ ↦ Operation.within_pure _

/-- An object is stored with its value, which may have to be asked for; one without a value is
discarded again. -/
theorem within_createObject (expression : String) :
    Operation.Within R (createObject expression) := by
  refine Operation.within_bind (Operation.within_request _) fun response ↦
    Operation.within_bind (Task.within_pure _) fun v ↦ ?_
  split
  · exact h.within_storeObject v
  · refine Operation.within_bind (Operation.within_lift (within_askValue v.name)) fun answer ↦ ?_
    cases answer with
    | ok value => exact h.within_storeObject _
    | error e =>
      exact Operation.within_bind (Operation.within_lift (h.within_discardObject v.name)) fun _ ↦
        Operation.within_throw e

/-- A value that is fetched is stored. -/
theorem within_fetchValue (name : String) : Operation.Within R (fetchValue name) :=
  Operation.within_bind (within_askValue name) fun _ ↦
    Operation.within_bind (Operation.within_update fun s ↦ h.objects s _) fun _ ↦
      Operation.within_pure _

/-- A path that is fetched is stored. -/
theorem within_fetchPath (name : String) : Operation.Within R (fetchPath name) :=
  Operation.within_bind (Operation.within_request _) fun response ↦
    Operation.within_bind (Operation.within_textOf response _ _) fun _ ↦
      Operation.within_bind (Operation.within_update fun s ↦ h.objects s _) fun _ ↦
        Operation.within_pure _

/-- An assignment is recorded in the table and reported, if its object is there. -/
theorem recordAssignment (s : Session) (name value : String) :
    R s (s.recordAssignment name value) := by
  unfold Session.recordAssignment
  dsimp only
  split
  · exact h.trans (h.objects s _) (h.report _ (.watchUpdated _) trivial)
  · exact h.objects s _

theorem within_assign (name expression : String) :
    Operation.Within R (assign name expression) :=
  Operation.within_bind (Operation.within_request _) fun _ ↦
    Operation.within_bind (Operation.within_update fun s ↦ h.recordAssignment s name _) fun _ ↦
      Operation.within_pure _

/-- The format is set in the table after the debugger has accepted it, together with the value that
comes with it. -/
theorem within_setFormat (name : String) (format : DisplayFormat) :
    Operation.Within R (setFormat name format) :=
  Operation.within_bind (Operation.within_request _) fun _ ↦
    Operation.within_bind (Operation.within_update fun s ↦ h.objects s _) fun _ ↦
      Operation.within_pure _

/-- A tree leaves the table after the debugger has accepted that. -/
theorem within_deleteObject (name : String) : Operation.Within R (deleteObject name) :=
  Operation.within_bind (Operation.within_request _) fun _ ↦
    Operation.within_lift (Task.within_step fun s ↦ h.objects s _)

/-- All deletions are tried, whichever of them fail. -/
theorem within_deleteObjects (names : List String) : (deleteObjects names).Within R := by
  induction names with
  | nil => exact trivial
  | cons name rest ih =>
    refine Task.within_bind (h.within_deleteObject name) fun result ↦
      Task.within_bind ih fun later ↦ ?_
    cases result <;> exact trivial

/-! ### Children -/

/-- Children are stored if their parent is there. -/
theorem within_storeChildren (parent : String) (children : List Variable) :
    Operation.Within R (storeChildren parent children) := by
  refine Operation.within_bind (Task.within_step fun s ↦ ?_) fun _ ↦ Operation.within_pure _
  split
  · exact h.objects s _
  · exact h.refl s

/-- Children are stored after all of them are complete. -/
theorem within_listChildren (parent : String) : Operation.Within R (listChildren parent) :=
  Operation.within_bind (Operation.within_request _) fun _ ↦
    Operation.within_bind (Operation.within_lift (within_completeChildren _)) fun children ↦
      h.within_storeChildren parent children

/-! ### Building -/

open Keeping

/-- A name that comes up in a build is noted; the session changes as it does when an object is
created. -/
theorem within_createTracked (expression : String) :
    Keeping.Within R (createTracked expression) :=
  within_bind (within_inBuild (h.within_createObject expression)) fun _ ↦
    within_bind (within_modify _) fun _ ↦ within_pure _

variable {builder : Builder} (hbuilder : ∀ v expression, Keeping.Within R (builder v expression))
include hbuilder

theorem within_buildFrom (expression : String) :
    Keeping.Within R (buildFrom builder expression) :=
  within_bind (h.within_createTracked expression) fun v ↦ hbuilder v expression

omit h in
/-- The elements of an array are built one after another. -/
theorem within_buildElements (expression : String) (children : List Variable) :
    Keeping.Within R (buildElements builder expression children) := by
  induction children with
  | nil => exact within_pure _
  | cons child rest ih =>
    exact within_bind (hbuilder child _) fun _ ↦ within_bind ih fun _ ↦ within_pure _

/-- A vector that has elements within reach is built from the array that its pointers span, which is
listed. -/
theorem within_buildVector (limit : Nat) (expression : String) :
    Keeping.Within R (buildVector builder limit expression) := by
  refine within_bind (h.within_createTracked _) fun length ↦ ?_
  dsimp only
  split_ifs
  · exact within_pure _
  · exact within_bind (h.within_createTracked _) fun array ↦
      within_bind (within_inBuild (h.within_listChildren array.name)) fun children ↦
        within_bind (within_buildElements hbuilder expression _) fun _ ↦ within_pure _

omit hbuilder in
/-- A link is an object that is created and noted. -/
theorem within_followLink (expression : String) : Keeping.Within R (followLink expression) :=
  within_bind (within_inWalk (h.within_createTracked expression)) fun _ ↦
    within_bind (within_modify _) fun _ ↦ within_pure _

omit hbuilder in
/-- Each node on the way down is left by following a link. -/
theorem within_descend (fuel : Nat) (current : Option Address) (stack visited : List Address) :
    Keeping.Within R (descend fuel current stack visited) := by
  induction fuel generalizing current stack visited with
  | zero =>
    cases current with
    | none => exact within_pure _
    | some address => exact within_endless
  | succ fuel ih =>
    cases current with
    | none => exact within_pure _
    | some address =>
      unfold descend
      split_ifs
      · exact within_pure _
      · exact within_bind (h.within_followLink _) fun left ↦ ih left _ _

/-- Each node in order takes a descent, its key, its value and a link, by induction on how many more
may come. -/
theorem within_listNodes (key value : TypeName) (count : Nat) (current : Option Address)
    (stack visited : List Address) :
    Keeping.Within R (listNodes builder key value count current stack visited) := by
  induction count generalizing current stack visited with
  | zero => exact within_pure _
  | succ count ih =>
    refine within_bind (h.within_descend _ _ _ _) fun found ↦ ?_
    obtain ⟨_ | ⟨address, stack⟩, visited⟩ := found
    · exact within_pure _
    · exact within_bind (within_inWalk (h.within_buildFrom hbuilder _)) fun _ ↦
        within_bind (within_inWalk (h.within_buildFrom hbuilder _)) fun _ ↦
          within_bind (within_modify _) fun _ ↦
            within_bind (h.within_followLink _) fun right ↦ ih right _ _

/-- A walk begins at the link to the root. -/
theorem within_walkTree (limit : Nat) (expression : String) (key value : TypeName) :
    Keeping.Within R (walkTree builder limit expression key value) :=
  within_bind (h.within_followLink _) fun root ↦
    h.within_listNodes hbuilder key value limit root _ _

/-- The walk through a map keeps its own account. If it fails, what the decoder does not use of it
is discarded. -/
theorem within_buildMap (limit : Nat) (expression : String) (key value : TypeName) :
    Keeping.Within R (buildMap builder limit expression key value) := by
  refine within_bind (h.within_createTracked _) fun count ↦
    within_bind (within_lift (h.within_walkTree hbuilder limit expression key value _))
      fun found ↦ ?_
  obtain ⟨result, walk⟩ := found
  cases result with
  | ok _ => exact within_bind (within_modify _) fun _ ↦ within_pure _
  | error e =>
    exact within_bind (within_lift (h.within_discardAll _)) fun _ ↦
      within_bind (within_modify _) fun _ ↦ within_pure _

omit hbuilder

/-- Whatever is built, by induction on how deep containers may nest. -/
theorem within_build (limit depth : Nat) (v : Variable) (expression : String) :
    Keeping.Within R (build limit depth v expression) := by
  induction depth generalizing v expression with
  | zero => exact within_endless
  | succ depth ih =>
    unfold build
    extract_lets parts finish
    have hfinish : ∀ decoder, Keeping.Within R (finish decoder) := fun _ ↦ within_pure _
    split
    case h_6 => exact within_bind (h.within_createTracked _) fun chars ↦ hfinish (.str chars.name)
    case h_7 =>
      exact within_bind (h.within_buildFrom ih _) fun first ↦
        within_bind (h.within_buildFrom ih _) fun second ↦ hfinish (.pair first second)
    case h_8 => exact within_bind (h.within_buildVector ih limit expression) hfinish
    case h_9 => exact within_bind (h.within_buildMap ih limit expression _ _) hfinish
    all_goals exact hfinish _

/-! ### Watches -/

/-- A watch is registered under the next number. -/
theorem registerWatch (s : Session) (watch : Watch) : R s (s.registerWatch watch).2 :=
  h.trans (h.hold s s.objects _ _) (h.report _ (.watchDecoded _ _) trivial)

/-- What was built for a watch that could not be added is discarded. -/
theorem within_addWatch (depth : Nat) (expression : String) :
    Operation.Within R (addWatch depth expression) := by
  refine Operation.within_bind (Operation.within_lift (Task.within_query h.refl)) fun limit ↦
    Operation.within_bind (Operation.within_lift
      (h.within_buildFrom (h.within_build limit depth) expression [])) fun built ↦ ?_
  obtain ⟨result, created⟩ := built
  cases result with
  | ok watch => exact Operation.within_lift (Task.within_step fun s ↦ h.registerWatch s watch)
  | error e =>
    exact Operation.within_bind (Operation.within_lift (h.within_discardAll created)) fun _ ↦
      Operation.within_throw e

/-- A watch is unregistered before its objects are deleted. -/
theorem within_removeWatch (id : Nat) : Operation.Within R (removeWatch id) := by
  refine Operation.within_bind (Operation.within_lift (Task.within_step fun s ↦ h.watches s _))
    fun removed ↦ ?_
  cases removed with
  | none => exact Operation.within_pure _
  | some watch =>
    refine Operation.within_bind (Operation.within_lift (h.within_deleteObjects _)) fun failure ↦ ?_
    cases failure with
    | none => exact Operation.within_pure _
    | some e => exact Operation.within_throw e

/-- The derived objects are deleted first, then the watch is built anew and put in the place of the
old one. -/
theorem within_rebuildWatch (depth id : Nat) : Operation.Within R (rebuildWatch depth id) := by
  refine Operation.within_bind (Operation.within_lift (Task.within_query h.refl))
    fun registered ↦ ?_
  cases registered with
  | none => exact Operation.within_pure _
  | some old =>
    refine Operation.within_bind (Operation.within_lift (h.within_deleteObjects _)) fun _ ↦
      Operation.within_bind (Operation.within_lift (Task.within_query h.refl)) fun found ↦ ?_
    obtain ⟨limit, object⟩ := found
    cases object with
    | none => exact Operation.within_throw _
    | some v =>
      refine Operation.within_bind (Operation.within_lift (h.within_build limit depth v _ []))
        fun built ↦ ?_
      obtain ⟨result, created⟩ := built
      cases result with
      | ok watch => exact Operation.within_update fun s ↦ h.watches s _
      | error e =>
        exact Operation.within_bind (Operation.within_lift (h.within_discardAll created)) fun _ ↦
          Operation.within_throw e

/-- A watch is decoded from what is stored and reported, if it is still registered. -/
theorem reportWatch (s : Session) (id : Nat) : R s (s.reportWatch id) := by
  unfold Session.reportWatch
  split
  · exact h.report s (.watchDecoded _ _) trivial
  · exact h.refl s

/-- Watches are rebuilt one after another, and then all that are affected are reported. -/
theorem within_refreshWatches (depth : Nat) (changed : List String) :
    (refreshWatches depth changed).Within R :=
  Task.within_bind (Task.within_query h.refl) fun found ↦
    Task.within_bind (Task.within_forM (fun id ↦
      Task.within_bind (h.within_rebuildWatch depth id) fun _ ↦ Task.within_pure _) found.1) fun _ ↦
        Task.within_update (h.foldl fun s id _ ↦ h.reportWatch s id)

/-- Changes are applied to the table, and each object that is left is reported. -/
theorem recordChanges (s : Session) (changes : List Fields) : R s (s.recordChanges changes).2 := by
  refine h.trans (h.objects s _) (h.foldl (fun s event hevent ↦ h.report s event ?_) _)
  simp only [List.mem_append, List.mem_map] at hevent
  rcases hevent with ⟨v, -, rfl⟩ | ⟨name, -, rfl⟩ <;> trivial

/-- An update applies the changes that the debugger lists, and refreshes the watches if there are
any. -/
theorem within_updateObjects (depth : Nat) : Operation.Within R (updateObjects depth) := by
  refine Operation.within_bind (Operation.within_request _) fun response ↦
    Operation.within_bind (Operation.within_lift (Task.within_step fun s ↦ h.recordChanges s _))
      fun updated ↦ ?_
  split_ifs
  · exact Operation.within_pure _
  · exact Operation.within_bind (Operation.within_lift (h.within_refreshWatches depth _)) fun _ ↦
      Operation.within_pure _

end Indifferent

end Session

end DebugLink
