import DebugLink.Proofs.Session.Exchange
import DebugLink.Proofs.Variable.Table
import Mathlib.Data.List.Perm.Basic
import Mathlib.Data.List.Nodup

/-!
Keeping account of the objects of the debugger. What an exchange creates and deletes can be read off
the command and its answer. `Accounts` compares that with the table of the client: everything
created since some session is deleted again or stands in the table, and apart from that the table
has not changed.

`Task.Owns` says of a task that it keeps account with any debugger that conforms to what is expected
of it, and what holds when the task ends. It is proved of one function after another. What a task
does when the account begins with it (`Task.Adds`) is what it does in any larger account
(`Task.Adds.frame`).
-/

set_option autoImplicit false

namespace DebugLink

open Variable

/-! ### What exchanges do -/

namespace Exchange

/-- The name of the object that an exchange creates. -/
def created? (exchange : Exchange) : Option String :=
  match exchange.answer with
  | .ok response =>
    if exchange.command.operation = "-var-create" then response.fields.text? "name" else none
  | .error _ => none

/-- The name of the object that an exchange deletes. -/
def deleted? (exchange : Exchange) : Option String :=
  match exchange.answer with
  | .ok _ =>
    if exchange.command.operation = "-var-delete" then exchange.command.parameters.head? else none
  | .error _ => none

/-- Only `-var-create` creates an object. -/
theorem created?_of_ne {command : Command} (h : command.operation ≠ "-var-create")
    (answer : Except SessionError Response) : created? ⟨command, answer⟩ = none := by
  cases answer with
  | ok response => exact if_neg h
  | error e => rfl

/-- Only `-var-delete` deletes an object. -/
theorem deleted?_of_ne {command : Command} (h : command.operation ≠ "-var-delete")
    (answer : Except SessionError Response) : deleted? ⟨command, answer⟩ = none := by
  cases answer with
  | ok response => exact if_neg h
  | error e => rfl

/-- A creation that is answered creates the object that the answer names. -/
@[simp]
theorem created?_varCreate (name frame : Option String) (expression : String)
    (response : Response) :
    created? ⟨(Request.varCreate name frame expression).command, .ok response⟩ =
      response.fields.text? "name" :=
  rfl

/-- A creation deletes nothing. -/
@[simp]
theorem deleted?_varCreate (name frame : Option String) (expression : String)
    (answer : Except SessionError Response) :
    deleted? ⟨(Request.varCreate name frame expression).command, answer⟩ = none :=
  deleted?_of_ne (show "-var-create" ≠ "-var-delete" by decide) answer

/-- A deletion creates nothing. -/
@[simp]
theorem created?_varDelete (name : String) (answer : Except SessionError Response) :
    created? ⟨(Request.varDelete name).command, answer⟩ = none :=
  created?_of_ne (show "-var-delete" ≠ "-var-create" by decide) answer

/-- A deletion that is answered deletes the object that it names. -/
@[simp]
theorem deleted?_varDelete (name : String) (response : Response) :
    deleted? ⟨(Request.varDelete name).command, .ok response⟩ = some name :=
  rfl

/-- The names of the objects that an exchange lists, which should lie below the object asked
about. -/
def listed (exchange : Exchange) : List String :=
  match exchange.answer with
  | .ok response =>
    if exchange.command.operation = "-var-list-children" then
      ((response.fields.tuples "children").filterMap ofChild?).map Variable.name
    else []
  | .error _ => []

/-- What is expected of the debugger in an exchange: it gives objects names without a dot, lists
objects below the one asked about, and does not refuse to delete. -/
structure Proper (exchange : Exchange) : Prop where
  created : ∀ name ∈ exchange.created?, isRootName name
  listed : ∀ parent ∈ exchange.command.parameters, ∀ name ∈ exchange.listed, isBelow parent name
  deleted : exchange.command.operation = "-var-delete" → ∃ response, exchange.answer = .ok response

/-- Whether an exchange is proper can be computed. -/
theorem proper_iff {exchange : Exchange} :
    exchange.Proper ↔ exchange.created?.toList.all isRootName ∧
      (exchange.command.parameters.all fun parent ↦ exchange.listed.all (isBelow parent)) ∧
        (exchange.command.operation = "-var-delete" → exchange.answer.isOk) := by
  have hok : ∀ answer : Except SessionError Response,
      (∃ response, answer = .ok response) ↔ answer.isOk := by
    intro answer
    cases answer with
    | ok response => exact ⟨fun _ ↦ rfl, fun _ ↦ ⟨response, rfl⟩⟩
    | error e => exact ⟨nofun, nofun⟩
  constructor
  · intro h
    refine ⟨?_, ?_, fun hdelete ↦ (hok _).mp (h.deleted hdelete)⟩
    · simpa using h.created
    · simpa using h.listed
  · rintro ⟨hcreated, hlisted, hdeleted⟩
    exact ⟨by simpa using hcreated, by simpa using hlisted,
      fun hdelete ↦ (hok _).mpr (hdeleted hdelete)⟩

instance (exchange : Exchange) : Decidable exchange.Proper :=
  decidable_of_iff _ proper_iff.symm

end Exchange

/-- The objects that are created, in order. -/
def created (trace : List Exchange) : List String :=
  trace.filterMap Exchange.created?

/-- The objects that are deleted, in order. -/
def deleted (trace : List Exchange) : List String :=
  trace.filterMap Exchange.deleted?

/-- Nothing is created in no exchange. -/
@[simp]
theorem created_nil : created [] = [] :=
  rfl

/-- Nothing is deleted in no exchange. -/
@[simp]
theorem deleted_nil : deleted [] = [] :=
  rfl

/-- What two traces create is what the one creates and then the other. -/
@[simp]
theorem created_append (before after : List Exchange) :
    created (before ++ after) = created before ++ created after :=
  List.filterMap_append

/-- What two traces delete is what the one deletes and then the other. -/
@[simp]
theorem deleted_append (before after : List Exchange) :
    deleted (before ++ after) = deleted before ++ deleted after :=
  List.filterMap_append

/-- What is expected of the debugger, where objects of the given names are known: besides what is
expected in every exchange, an object gets a name that no object had before. -/
structure Conforms (known : List String) (trace : List Exchange) : Prop where
  proper : ∀ exchange ∈ trace, exchange.Proper
  nodup : (created trace).Nodup
  fresh : ∀ name ∈ known, rootOf name ∉ created trace

instance (known : List String) (trace : List Exchange) : Decidable (Conforms known trace) :=
  decidable_of_iff ((∀ exchange ∈ trace, exchange.Proper) ∧ (created trace).Nodup ∧
      ∀ name ∈ known, rootOf name ∉ created trace)
    ⟨fun h ↦ ⟨h.1, h.2.1, h.2.2⟩, fun h ↦ ⟨h.proper, h.nodup, h.fresh⟩⟩

/-! ### Accounts -/

variable {start s s' s₁ : Session} {before after trace : List Exchange} {live live' : List String}
  {known : List String}

/-- The account of what happened since a session: what was created since then is deleted or live,
the table has grown by what is live, and nothing else that the session holds has changed. -/
structure Accounts (start : Session) (trace : List Exchange) (s : Session) (live : List String) :
    Prop where
  balance : (created trace).Perm (deleted trace ++ live)
  grown : VariableTable.Grown start.objects s.objects live
  orderly : start.objects.Orderly → s.objects.Orderly
  others : s.holdings = { start.holdings with objects := s.objects }

namespace Conforms

/-- The first part of a trace conforms if the whole does. -/
theorem left (h : Conforms known (before ++ after)) : Conforms known before where
  proper := fun exchange hmem ↦ h.proper exchange (List.mem_append_left _ hmem)
  nodup := (created_append before after ▸ h.nodup).of_append_left
  fresh := fun name hname hmem ↦ h.fresh name hname (by simp [hmem])

/-- The rest of what a debugger does, where fewer objects are known. -/
theorem tail {known' : List String} (h : Conforms known (before ++ after))
    (hsubset : known' ⊆ known) : Conforms known' after where
  proper := fun exchange hmem ↦ h.proper exchange (List.mem_append_right _ hmem)
  nodup := (created_append before after ▸ h.nodup).of_append_right
  fresh := fun name hname hmem ↦ h.fresh name (hsubset hname) (by simp [hmem])

/-- No root that was known before is created anew. -/
theorem notMem_created {name : String} (h : Conforms known trace) (hname : name ∈ known)
    (hroot : isRootName name) : name ∉ created trace := by
  have hfresh := h.fresh name hname
  rwa [rootOf_eq_self hroot] at hfresh

/-- Objects are created as roots. -/
theorem isRootName_of_mem {name : String} (h : Conforms known trace)
    (hname : name ∈ created trace) : isRootName name := by
  obtain ⟨exchange, hmem, hcreated⟩ := List.mem_filterMap.mp hname
  exact (h.proper exchange hmem).created name hcreated

/-- What was created before is as fresh to the rest as what was known before. -/
theorem rest (h : Conforms known (before ++ after)) : Conforms (known ++ created before) after where
  proper := fun exchange hmem ↦ h.proper exchange (List.mem_append_right _ hmem)
  nodup := (created_append before after ▸ h.nodup).of_append_right
  fresh := by
    intro name hname hmem
    rcases List.mem_append.mp hname with hold | hnew
    · exact h.fresh name hold (by simp [hmem])
    · rw [rootOf_eq_self (h.left.isRootName_of_mem hnew)] at hmem
      exact List.disjoint_of_nodup_append (created_append before after ▸ h.nodup) hnew hmem

/-- What is live on an account is as fresh to the rest as the table was before. -/
theorem right (h : Conforms start.objects.known (before ++ after))
    (hacc : Accounts start before s live) : Conforms s.objects.known after where
  proper := fun exchange hmem ↦ h.proper exchange (List.mem_append_right _ hmem)
  nodup := (created_append before after ▸ h.nodup).of_append_right
  fresh := by
    intro name hname hmem
    have hnodup := h.nodup
    rw [created_append, List.nodup_append] at hnodup
    rcases hacc.grown.rootOf_mem hname with hold | hlive
    · exact h.fresh name hold (by simp [hmem])
    · have hcreated : rootOf name ∈ created before :=
        hacc.balance.mem_iff.mpr (List.mem_append_right _ hlive)
      exact hnodup.2.2 _ hcreated _ hmem rfl

end Conforms

namespace Accounts

/-- Where nothing happened nothing is live. -/
theorem refl (s : Session) : Accounts s [] s [] :=
  ⟨.nil, .refl _, id, rfl⟩

/-- Accounts add up. -/
theorem trans (h : Accounts start before s live) (h' : Accounts s after s' live') :
    Accounts start (before ++ after) s' (live ++ live') where
  balance := by
    rw [List.perm_iff_count]
    intro name
    have hleft := h.balance.count_eq name
    have hright := h'.balance.count_eq name
    simp only [created_append, deleted_append, List.count_append] at hleft hright ⊢
    omega
  grown := h.grown.trans h'.grown
  orderly := fun horderly ↦ h'.orderly (h.orderly horderly)
  others := by rw [h'.others, h.others]

/-- No watch is added or removed on an account. -/
theorem watches_eq (h : Accounts start trace s live) : s.watches = start.watches :=
  congrArg Holdings.watches h.others

/-- No number of a watch is given out on an account. -/
theorem nextWatch_eq (h : Accounts start trace s live) : s.nextWatch = start.nextWatch :=
  congrArg Holdings.nextWatch h.others

/-- When nothing is live all that the session holds is as it was. -/
theorem holdings_eq (h : Accounts start trace s []) : s.holdings = start.holdings := by
  rw [h.others, h.grown.eq_of_nil]
  rfl

/-- What is live on an account are different objects. -/
theorem nodup (h : Accounts start trace s live) (hconf : Conforms known trace) : live.Nodup :=
  (h.balance.nodup_iff.mp hconf.nodup).of_append_right

/-- The order in which the live objects are given does not matter. -/
theorem of_perm (h : Accounts start trace s live) (hperm : live.Perm live') :
    Accounts start trace s live' :=
  ⟨h.balance.trans (hperm.append_left _), h.grown.of_mem_iff fun _ ↦ hperm.mem_iff.symm, h.orderly,
    h.others⟩

/-- Exchanges that create and delete nothing. -/
theorem quiet (h : Accounts start before s live) (hcreated : created after = [])
    (hdeleted : deleted after = []) (hquiet : s'.holdings = s.holdings) :
    Accounts start (before ++ after) s' live := by
  have hobjects : s'.objects = s.objects := (Session.holdings_eq_iff.mp hquiet).2.1
  refine ⟨?_, hobjects ▸ h.grown, hobjects ▸ h.orderly, ?_⟩
  · rw [created_append, deleted_append, hcreated, hdeleted, List.append_nil, List.append_nil]
    exact h.balance
  · rw [hquiet, hobjects, h.others]

end Accounts

/-! ### Tasks that keep account -/

variable {α β : Type}

namespace Task

/-- A task keeps account: begun in a session with some objects live on an account, it ends with an
account of the objects that are live then, if the debugger conforms. -/
def Owns (start : Session) (live : List String) (task : Task α) (s : Session)
    (post : α → List String → Session → Prop) : Prop :=
  ∀ ⦃before trace value s'⦄, Accounts start before s live → task.Runs s trace value s' →
    Conforms start.objects.known (before ++ trace) →
      ∃ live', Accounts start (before ++ trace) s' live' ∧ post value live' s'

/-- A task keeps account of what it does itself. -/
def Adds (task : Task α) (s : Session) (post : α → List String → Session → Prop) : Prop :=
  ∀ ⦃trace value s'⦄, task.Runs s trace value s' → Conforms s.objects.known trace →
    ∃ live, Accounts s trace s' live ∧ post value live s'

variable {post post' : α → List String → Session → Prop}

/-- A task that keeps account from the start keeps account of what it does itself. -/
theorem Owns.adds {task : Task α} (h : task.Owns s [] s post) : task.Adds s post :=
  fun _ _ _ hrun hconf ↦ h (Accounts.refl s) hrun hconf

/-- What a task adds it adds to any account, and what was there before stays. -/
theorem Adds.frame {task : Task α} (h : task.Adds s post) :
    task.Owns start live s fun value live' s' ↦ ∃ added, live' = live ++ added ∧
      VariableTable.Grown s.objects s'.objects added ∧ post value added s' := by
  intro before trace value s' hacc hrun hconf
  obtain ⟨added, hadded, hpost⟩ := h hrun (hconf.right hacc)
  exact ⟨live ++ added, hacc.trans hadded, added, rfl, hadded.grown, hpost⟩

/-- What a task ends with may be weakened. -/
theorem Owns.mono {task : Task α} (h : task.Owns start live s post)
    (himp : ∀ value live' s', post value live' s' → post' value live' s') :
    task.Owns start live s post' := by
  intro before trace value s' hacc hrun hconf
  obtain ⟨live', hacc', hpost⟩ := h hacc hrun hconf
  exact ⟨live', hacc', himp value live' s' hpost⟩

/-- The order of the live objects does not matter. -/
theorem Owns.of_perm {task : Task α} (hperm : live.Perm live') (h : task.Owns start live' s post) :
    task.Owns start live s post :=
  fun _ _ _ _ hacc hrun hconf ↦ h (hacc.of_perm hperm) hrun hconf

/-- What is live on an account may be taken to be new and distinct. -/
theorem owns_intro {task : Task α}
    (h : live.Nodup → VariableTable.Grown start.objects s.objects live →
      task.Owns start live s post) : task.Owns start live s post :=
  fun _ _ _ _ hacc hrun hconf ↦ h (hacc.nodup hconf.left) hacc.grown hacc hrun hconf

/-- A task that only returns leaves the account as it is. -/
theorem owns_pure {value : α} (h : post value live s) :
    (pure value : Task α).Owns start live s post := by
  intro before trace value' s' hacc hrun _
  obtain ⟨rfl, rfl, rfl⟩ := runs_pure_iff.mp hrun
  exact ⟨live, by rwa [List.append_nil], h⟩

/-- A task that creates and deletes nothing and leaves what the session holds as it is. -/
theorem owns_of_quiet {task : Task α} {result : α → Prop}
    (h : ∀ {trace value s'}, task.Runs s trace value s' →
      created trace = [] ∧ deleted trace = [] ∧ s'.holdings = s.holdings ∧ result value) :
    task.Owns start live s fun value live' s' ↦
      live' = live ∧ s'.holdings = s.holdings ∧ result value := by
  intro before trace value s' hacc hrun _
  obtain ⟨hcreated, hdeleted, hquiet, hresult⟩ := h hrun
  exact ⟨live, hacc.quiet hcreated hdeleted hquiet, rfl, hquiet, hresult⟩

/-- Accounts are carried through one task into the next. -/
theorem owns_bind {post : β → List String → Session → Prop} {P : α → List String → Session → Prop}
    {task : Task α} {f : α → Task β} (h : task.Owns start live s P)
    (hf : ∀ value live' s', P value live' s' → (f value).Owns start live' s' post) :
    (task >>= f).Owns start live s post := by
  intro earlier trace value s' hacc hrun hconf
  obtain ⟨before, value₁, s₁, after, rfl, hfirst, hlast⟩ := runs_bind_iff.mp hrun
  rw [← List.append_assoc] at hconf ⊢
  obtain ⟨live₁, hacc₁, hmiddle⟩ := h hacc hfirst hconf.left
  exact hf value₁ live₁ s₁ hmiddle hacc₁ hlast hconf

/-- A task that never ends has nothing to account for. -/
theorem owns_endless : (endless : Task α).Owns start live s post :=
  fun _ _ _ _ _ hrun _ ↦ absurd hrun not_runs_endless

end Task

namespace Operation

variable {post : Except SessionError α → List String → Session → Prop}

/-- Accounts are carried through operations too; one that fails ends there. -/
theorem owns_bind {post : Except SessionError β → List String → Session → Prop}
    {P : Except SessionError α → List String → Session → Prop}
    {operation : Operation α} {f : α → Operation β} (h : operation.run.Owns start live s P)
    (hok : ∀ value live' s', P (.ok value) live' s' → (f value).run.Owns start live' s' post)
    (herror : ∀ e live' s', P (.error e) live' s' → post (.error e) live' s') :
    (operation >>= f).run.Owns start live s post := by
  refine Task.owns_bind h fun result live' s' hmiddle ↦ ?_
  cases result with
  | ok value => exact hok value live' s' hmiddle
  | error e => exact Task.owns_pure (herror e live' s' hmiddle)

/-- A task keeps its account as an operation. -/
theorem owns_lift {task : Task α} {result : α → List String → Session → Prop}
    (h : task.Owns start live s result) (hpost : ∀ value live' s', result value live' s' →
      post (.ok value) live' s') : (Operation.lift task).run.Owns start live s post :=
  Task.owns_bind h fun value live' s' hresult ↦ Task.owns_pure (hpost value live' s' hresult)

/-- A task that cannot fail, and what follows it. -/
theorem owns_bind_lift {post : Except SessionError β → List String → Session → Prop}
    {P : α → List String → Session → Prop} {task : Task α} {f : α → Operation β}
    (h : task.Owns start live s P)
    (hf : ∀ value live' s', P value live' s' → (f value).run.Owns start live' s' post) :
    (Operation.lift task >>= f).run.Owns start live s post := by
  refine owns_bind (P := fun result live' s' ↦ ∃ value, result = .ok value ∧
    P value live' s') ?_ ?_ ?_
  · exact owns_lift h fun value _ _ hvalue ↦ ⟨value, rfl, hvalue⟩
  · rintro value live' s' ⟨_, hsame, hvalue⟩
    exact hf value live' s' (Except.ok.inj hsame ▸ hvalue)
  · rintro e live' s' ⟨_, hsame, -⟩
    nomatch hsame

/-- A request that is about no creation and no deletion. -/
theorem owns_request_quiet {r : Request} (hcreate : r.command.operation ≠ "-var-create")
    (hdelete : r.command.operation ≠ "-var-delete") :
    (Operation.request r).run.Owns start live s fun result live' s' ↦ live' = live ∧
      s'.holdings = s.holdings ∧ (Exchange.mk r.command result).Proper := by
  intro before trace result s' hacc hrun hconf
  obtain ⟨rfl, hquiet⟩ := runs_request_iff.mp hrun
  refine ⟨live, hacc.quiet ?_ ?_ hquiet, rfl, hquiet, hconf.proper _ (by simp)⟩
  · simp [created, Exchange.created?_of_ne hcreate]
  · simp [deleted, Exchange.deleted?_of_ne hdelete]

end Operation

end DebugLink
