import DebugLink.Proofs.Session.Bulletin
import DebugLink.Proofs.Table.Numbered
import DebugLink.Proofs.Watch.Kinship

/-!
How the watches of a session are related to its variable objects. With a debugger that gives created
objects names without a dot and children names of children (`Exchange.Named`), objects list their
children, watches stand in the order of their numbers, and a watch reads roots and children of roots
that it reads (`Session.Kindred`).

A task tends to this (`Task.Tends`) if each of its changes, made in a session of which it holds,
keeps it and is within a relation; and so much holds of the value of the task. Such a task can be
put together from parts, and may keep something at hand of which a property holds throughout
(`Keeping.Tends`). What it means for runs is `Task.Tends.kindred` and, where the relation goes on
from step to step, `Task.Tends.related`.
-/

set_option autoImplicit false

namespace DebugLink

open Variable

/-! ### Names that the debugger gives -/

namespace Exchange

/-- The debugger gives a created object a name without a dot, and lists children of the object asked
about under names of its children. -/
structure Named (exchange : Exchange) : Prop where
  created : ∀ name ∈ exchange.created?, isRootName name
  listed : ∀ parent ∈ exchange.command.parameters, ∀ name ∈ exchange.listed, IsChild parent name

/-- Whether the debugger names objects as it should can be computed. -/
theorem named_iff {exchange : Exchange} :
    exchange.Named ↔ exchange.created?.toList.all isRootName ∧
      exchange.command.parameters.all fun parent ↦
        exchange.listed.all fun name ↦ parentName? name = some parent := by
  simp only [List.all_eq_true, Option.mem_toList, decide_eq_true_eq, parentName?_eq_some_iff]
  exact ⟨fun h ↦ ⟨h.created, h.listed⟩, fun h ↦ ⟨h.1, h.2⟩⟩

instance (exchange : Exchange) : Decidable exchange.Named :=
  decidable_of_iff _ named_iff.symm

end Exchange

/-! ### Kindred sessions -/

variable {α β σ : Type} {R R' : Session → Session → Prop} {s s₁ s' : Session}
  {trace : List Exchange}

namespace Session

/-- Objects list their children, watches stand in the order of their numbers, and each is for a root
and reads roots and children of roots that it reads. -/
structure Kindred (s : Session) : Prop where
  linked : s.objects.Linked
  ordered : NumberedTable.Ordered s.watches.watches.entries
  kin : ∀ entry ∈ s.watches.watches.entries, isRootName entry.2.var ∧ entry.2.Kin

namespace Kindred

/-- A new session has no objects and no watches. -/
theorem start (options : SessionOptions) : (Session.start options).Kindred where
  linked := .empty
  ordered := List.Pairwise.nil
  kin := List.forall_mem_nil _

/-- Whether a session is kindred depends on its objects and watches only. -/
theorem of_holdings (h : s.Kindred) (hquiet : s'.holdings = s.holdings) : s'.Kindred := by
  obtain ⟨-, hobjects, hwatches, -⟩ := holdings_eq_iff.mp hquiet
  exact ⟨hobjects ▸ h.linked, hwatches ▸ h.ordered, hwatches ▸ h.kin⟩

/-- The watch that is found under a number. -/
theorem of_get? (h : s.Kindred) {id : Nat} {w : Watch} (hget : s.watches.get? id = some w) :
    isRootName w.var ∧ w.Kin :=
  h.kin (id, w) ((NumberedTable.get?_eq_some_iff h.ordered).mp hget)

/-- The objects may be replaced by others that list their children. -/
theorem objects (h : s.Kindred) {table : VariableTable} (hlinked : table.Linked) :
    Kindred { s with objects := table } :=
  ⟨hlinked, h.ordered, h.kin⟩

/-- A watch for a root that reads that root and its children may be added. -/
theorem insert (h : s.Kindred) {w : Watch} (hvar : isRootName w.var) (hkin : w.Kin) (id : Nat) :
    Kindred { s with watches := (s.watches.insert id w).2 } where
  linked := h.linked
  ordered := h.ordered.put id w
  kin entry hentry := by
    rcases List.mem_cons.mp ((NumberedTable.perm_put h.ordered id w).mem_iff.mp hentry) with
      rfl | hother
    · exact ⟨hvar, hkin⟩
    · exact h.kin entry (List.mem_of_mem_filter hother)

/-- A watch may be removed. -/
theorem remove (h : s.Kindred) (id : Nat) :
    Kindred { s with watches := (s.watches.remove id).2 } where
  linked := h.linked
  ordered := h.ordered.filter _
  kin entry hentry := h.kin entry (List.mem_of_mem_filter hentry)

end Kindred

end Session

/-! ### Tasks -/

namespace Task

/-- Each change that a task makes in a kindred session leaves it kindred and is within a relation,
as long as the debugger names objects as it should; and so much holds of the value of the task. -/
def Tends (R : Session → Session → Prop) (post : α → Prop) : Task α → Prop
  | done value => post value
  | act change next => ∀ s, s.Kindred →
      ((change s).Kindred ∧ R s (change s)) ∧ (next s).Tends R post
  | exchange command next => ∀ answer, Exchange.Named ⟨command, answer⟩ →
      (next answer).Tends R post
  | endless => True

section Rules

variable {post P : α → Prop} {Q : β → Prop}

/-- The relation and what holds of the value may be weakened. -/
theorem Tends.mono {task : Task α} (h : task.Tends R P) (hR : ∀ s s', R s s' → R' s s')
    (hpost : ∀ value, P value → post value) : task.Tends R' post := by
  induction task with
  | done value => exact hpost value h
  | act change next ih =>
    exact fun s hs ↦ ⟨(h s hs).1.imp_right (hR s _), ih s (h s hs).2⟩
  | exchange command next ih => exact fun answer hnamed ↦ ih answer (h answer hnamed)
  | endless => trivial

/-- What holds of the value may be weakened. -/
theorem Tends.value (h : ∀ {value}, P value → post value) {task : Task α} (ht : task.Tends R P) :
    task.Tends R post :=
  ht.mono (fun _ _ ↦ id) fun _ ↦ h

/-- A task that only returns changes nothing. -/
theorem tends_pure {value : α} (h : post value) : (pure value : Task α).Tends R post :=
  h

/-- One task after another. -/
theorem tends_bind {task : Task α} {f : α → Task β} (h : task.Tends R P)
    (hf : ∀ value, P value → (f value).Tends R Q) : (task >>= f).Tends R Q := by
  show (task.bind f).Tends R Q
  induction task with
  | done value => exact hf value h
  | act change next ih => exact fun s hs ↦ (h s hs).imp_right (ih s)
  | exchange command next ih => exact fun answer hnamed ↦ ih answer (h answer hnamed)
  | endless => trivial

/-- A single step, for which it is enough to look at kindred sessions. -/
theorem tends_step {f : Session → α × Session}
    (h : ∀ s, s.Kindred → (Session.Kindred (f s).2 ∧ R s (f s).2) ∧ post (f s).1) :
    (step f).Tends R post :=
  h

/-- A look at the session changes nothing. -/
theorem tends_query (hrefl : ∀ s, R s s) {f : Session → α} (h : ∀ s, s.Kindred → post (f s)) :
    (query f).Tends R post :=
  fun s hs ↦ ⟨⟨hs, hrefl s⟩, h s hs⟩

/-- A change without a value. -/
theorem tends_update {f : Session → Session} {post : Unit → Prop}
    (h : ∀ s, s.Kindred → Session.Kindred (f s) ∧ R s (f s)) (hpost : post ()) :
    (update f).Tends R post :=
  fun s hs ↦ ⟨h s hs, hpost⟩

/-- One task for each item. -/
theorem tends_forM {f : α → Task Unit} (items : List α)
    (h : ∀ item, (f item).Tends R fun _ ↦ True) : (items.forM f).Tends R fun _ ↦ True := by
  induction items with
  | nil => exact trivial
  | cons item rest ih => exact tends_bind (h item) fun _ _ ↦ ih

/-- A task all of whose changes leave a session kindred, whatever the answers are. -/
theorem tends_of_within {task : Task α} (h : task.Within R)
    (hR : ∀ s s', R s s' → s.Kindred → s'.Kindred) : task.Tends R fun _ ↦ True := by
  induction task with
  | done value => exact trivial
  | act change next ih => exact fun s hs ↦ ⟨⟨hR s _ (h s).1 hs, (h s).1⟩, ih s (h s).2⟩
  | exchange command next ih => exact fun answer _ ↦ ih answer (h answer)
  | endless => trivial

end Rules

/-! ### Runs -/

variable {post : α → Prop} {task : Task α} {value : α}

/-- Where a session is kindred it is so after the task, whatever happened beside it to anything but
the holdings. -/
theorem Tends.kindred (h : task.Tends R post) (hrun : task.Runs s trace value s')
    (hs : s.Kindred) (hnamed : ∀ exchange ∈ trace, exchange.Named) : s'.Kindred ∧ post value := by
  induction hrun with
  | done => exact ⟨hs, h⟩
  | act _ ih => exact ih (h _ hs).2 (h _ hs).1.1 hnamed
  | exchange answer hquiet _ ih =>
    exact ih (h answer (hnamed _ List.mem_cons_self)) (hs.of_holdings hquiet)
      fun exchange hmem ↦ hnamed exchange (List.mem_cons_of_mem _ hmem)

/-- A task that runs alone relates the session before to the session after. -/
theorem Tends.related (h : task.Tends R post) (hrest : ∀ s s', s.Rests s' → R s s')
    (htrans : ∀ s s₁ s', R s s₁ → R s₁ s' → R s s') (hrun : task.RunsAlone s trace value s')
    (hs : s.Kindred) (hnamed : ∀ exchange ∈ trace, exchange.Named) : R s s' := by
  induction hrun with
  | done value s => exact hrest s s (.refl s)
  | act _ ih => exact htrans _ _ _ (h _ hs).1.2 (ih (h _ hs).2 (h _ hs).1.1 hnamed)
  | exchange answer hquiet _ ih =>
    refine htrans _ _ _ (hrest _ _ hquiet) (ih (h answer (hnamed _ List.mem_cons_self))
      (hs.of_holdings hquiet.holdings) fun exchange hmem ↦ ?_)
    exact hnamed exchange (List.mem_cons_of_mem _ hmem)

end Task

/-! ### Operations -/

namespace Operation

/-- An operation leaves sessions kindred, and so much holds of its value if it succeeds. -/
def Tends (R : Session → Session → Prop) (post : α → Prop) (operation : Operation α) : Prop :=
  operation.run.Tends R fun result ↦ ∀ value, result = .ok value → post value

variable {post P : α → Prop} {Q : β → Prop}

/-- An operation that only returns changes nothing. -/
theorem tends_pure {value : α} (h : post value) : Tends R post (pure value) := by
  rintro _ ⟨⟩
  exact h

/-- An operation that fails has no value to speak of. -/
theorem tends_throw {e : SessionError} : Tends R post (throw e : Operation α) :=
  nofun

/-- One operation after another; if the first one fails nothing follows. -/
theorem tends_bind {operation : Operation α} {f : α → Operation β}
    (h : Tends R P operation) (hf : ∀ value, P value → Tends R Q (f value)) :
    Tends R Q (operation >>= f) := by
  refine Task.tends_bind h fun result hresult ↦ ?_
  cases result with
  | ok value => exact hf value (hresult value rfl)
  | error e => exact Task.tends_pure nofun

/-- A task as an operation that cannot fail. -/
theorem tends_lift {task : Task α} (h : task.Tends R post) :
    Tends R post (Operation.lift task) := by
  refine Task.tends_bind h fun value hvalue ↦ Task.tends_pure ?_
  rintro _ ⟨⟩
  exact hvalue

/-- A response that is returned is one in which the debugger names objects as it should. -/
theorem tends_request (r : Request) : Tends R (fun response ↦
    Exchange.Named ⟨r.command, .ok response⟩) (Operation.request r) := by
  rintro answer hnamed response rfl
  exact hnamed

/-- Reading a text from a response changes nothing. -/
theorem tends_textOf (response : Response) (name : String) (missing : Missing) :
    Tends R (fun _ ↦ True) (textOf response name missing) := by
  unfold textOf
  split
  · exact tends_pure trivial
  · exact tends_throw

/-- Whatever the value of an operation is. -/
theorem Tends.forget {operation : Operation α} (h : Tends R post operation) :
    operation.run.Tends R fun _ ↦ True :=
  Task.Tends.value (fun _ ↦ trivial) h

end Operation

/-! ### Operations that keep something at hand -/

namespace Keeping

/-- An operation leaves sessions kindred and keeps a property of what is at hand, also when it
fails; and so much holds of its value if it succeeds. -/
def Tends (R : Session → Session → Prop) (K : σ → Prop) (post : α → Prop)
    (operation : Keeping σ α) : Prop :=
  ∀ kept, K kept → (operation.run.run kept).Tends R fun found ↦
    K found.2 ∧ ∀ value, found.1 = .ok value → post value

variable {K : σ → Prop} {post P : α → Prop} {Q : β → Prop}

/-- To return changes neither the session nor what is at hand. -/
theorem tends_pure {value : α} (h : post value) :
    Tends R K post (pure value : Keeping σ α) := by
  refine fun kept hkept ↦ ⟨hkept, ?_⟩
  rintro _ ⟨⟩
  exact h

/-- One operation after another, with what is at hand carried on also from a failure. -/
theorem tends_bind {operation : Keeping σ α} {f : α → Keeping σ β}
    (h : Tends R K P operation) (hf : ∀ value, P value → Tends R K Q (f value)) :
    Tends R K Q (operation >>= f) := by
  intro kept hkept
  show ((operation.run.run kept >>= _ : Task (Except SessionError β × σ))).Tends R _
  refine Task.tends_bind (h kept hkept) fun found hfound ↦ ?_
  obtain ⟨result, kept'⟩ := found
  cases result with
  | ok value => exact hf value (hfound.2 value rfl) kept' hfound.1
  | error e => exact Task.tends_pure ⟨hfound.1, nofun⟩

/-- What is at hand may change, as long as its property is kept. -/
theorem tends_modify {f : σ → σ} (h : ∀ kept, K kept → K (f kept)) :
    Tends R K (fun _ ↦ True) (modify f : Keeping σ Unit) :=
  fun kept hkept ↦ ⟨h kept hkept, fun _ _ ↦ trivial⟩

/-- A task that cannot fail. -/
theorem tends_lift {task : Task α} (h : task.Tends R post) :
    Tends R K post (ExceptT.lift (StateT.lift task) : Keeping σ α) := by
  intro kept hkept
  show ((task >>= fun value ↦ pure (value, kept)) >>= fun found ↦
    pure (Except.ok found.1, found.2) : Task (Except SessionError α × σ)).Tends R _
  refine Task.tends_bind (P := fun found ↦ K found.2 ∧ post found.1) (Task.tends_bind h
    fun value hvalue ↦ Task.tends_pure ⟨hkept, hvalue⟩) fun found hfound ↦ Task.tends_pure ?_
  refine ⟨hfound.1, ?_⟩
  rintro _ ⟨⟩
  exact hfound.2

/-- An operation within a build leaves what is at hand alone. -/
theorem tends_inBuild {K : List String → Prop} {operation : Operation α}
    (h : Operation.Tends R post operation) : Tends R K post (Session.inBuild operation) :=
  fun _ hkept ↦ Task.tends_bind h fun _ hresult ↦ Task.tends_pure ⟨hkept, hresult⟩

/-- A part of building as a part of a walk, of which nothing is asked about the objects created. -/
theorem tends_inWalk {K : Walk → Prop} (hK : ∀ walk created, K walk → K { walk with created })
    {build : Build α} (h : Tends R (fun _ ↦ True) post build) :
    Tends R K post (Session.inWalk build) :=
  fun walk hwalk ↦ Task.tends_bind (h walk.created trivial) fun found hfound ↦
    Task.tends_pure ⟨hK walk found.2 hwalk, hfound.2⟩

end Keeping

end DebugLink
