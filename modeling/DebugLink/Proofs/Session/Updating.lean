import DebugLink.Proofs.Session.Building

/-!
Removing watches and updating them. `Session.removeWatch_cases` and `Session.rebuildWatch_cases` say
all that a removal and a rebuild can do when the debugger refuses no deletion. An update rebuilds
watches one after another and does not say how that went; `Session.updateNoting` is the update that
does, and apart from that it is the same (`Session.runs_updateObjects_iff`).
-/

set_option autoImplicit false

namespace DebugLink

open Variable

/-! ### Laws of tasks -/

namespace Task

variable {α β γ : Type}

theorem bind_assoc (task : Task α) (f : α → Task β) (g : β → Task γ) :
    task >>= f >>= g = task >>= fun value ↦ f value >>= g := by
  show (task.bind f).bind g = task.bind fun value ↦ (f value).bind g
  induction task with
  | done value => rfl
  | act change next ih => exact congrArg (act change) (funext fun s ↦ ih s)
  | exchange command next ih => exact congrArg (exchange command) (funext fun answer ↦ ih answer)
  | endless => rfl

theorem bind_pure_eq (task : Task α) : task >>= pure = task := by
  show task.bind done = task
  induction task with
  | done value => rfl
  | act change next ih => exact congrArg (act change) (funext fun s ↦ ih s)
  | exchange command next ih => exact congrArg (exchange command) (funext fun answer ↦ ih answer)
  | endless => rfl

instance : LawfulMonad Task :=
  LawfulMonad.mk' Task bind_pure_eq (fun _ _ ↦ rfl) bind_assoc

end Task

theorem Operation.lift_map {α β : Type} (f : α → β) (task : Task α) :
    Operation.lift (f <$> task) = f <$> Operation.lift task := by
  unfold Operation.lift
  refine ExceptT.ext ?_
  simp [Functor.map_map, Except.map]

namespace Session

variable {s s' : Session} {trace : List Exchange} {depth id : Nat} {name : String}

/-! ### Deleting objects -/

theorem runs_deleteObject {result : Except SessionError (List String)}
    (h : (deleteObject name).run.Runs s trace result s')
    (hproper : ∀ exchange ∈ trace, exchange.Proper) :
    (∃ names, result = .ok names) ∧ created trace = [] ∧ deleted trace = [name] ∧
      s'.holdings = { s.holdings with objects := s.objects.removeTree name } := by
  rcases Operation.runs_bind_iff.mp h with
    ⟨before, response, s₁, after, rfl, hdelete, hforget⟩ | ⟨e, rfl, hdelete⟩
  · obtain ⟨rfl, hquiet⟩ := Operation.runs_request_iff.mp hdelete
    obtain ⟨names, rfl, hstep⟩ := Operation.runs_lift_iff.mp hforget
    obtain ⟨rfl, -, rfl⟩ := Task.runs_step_iff.mp hstep
    refine ⟨⟨names, rfl⟩, by simp [created], by simp [deleted], ?_⟩
    rw [← hquiet, ← (holdings_eq_iff.mp hquiet).2.1]
    rfl
  · obtain ⟨rfl, -⟩ := Operation.runs_request_iff.mp hdelete
    obtain ⟨response, hok⟩ := (hproper _ List.mem_cons_self).deleted rfl
    cases hok

theorem runs_deleteObjects {names : List String} {failure : Option SessionError}
    (h : (deleteObjects names).Runs s trace failure s')
    (hproper : ∀ exchange ∈ trace, exchange.Proper) :
    failure = none ∧ created trace = [] ∧ deleted trace = names ∧
      s'.holdings = { s.holdings with
        objects := names.foldl VariableTable.removeTree s.objects } := by
  induction names generalizing s trace failure with
  | nil =>
    obtain ⟨rfl, rfl, rfl⟩ := Task.runs_pure_iff.mp h
    exact ⟨rfl, rfl, rfl, rfl⟩
  | cons name rest ih =>
    obtain ⟨before, result, s₁, after, rfl, hfirst, hlast⟩ := Task.runs_bind_iff.mp h
    obtain ⟨⟨gone, rfl⟩, hcreated, hdeleted, hheld⟩ := runs_deleteObject hfirst
      fun exchange hmem ↦ hproper exchange (List.mem_append_left _ hmem)
    obtain ⟨middle, later, s₂, after, rfl, hothers, hlast⟩ := Task.runs_bind_iff.mp hlast
    obtain ⟨rfl, rfl, rfl⟩ := Task.runs_pure_iff.mp hlast
    obtain ⟨rfl, hcreated', hdeleted', hheld'⟩ := ih hothers fun exchange hmem ↦
      hproper exchange (by simp [hmem])
    refine ⟨rfl, ?_, ?_, ?_⟩
    · simp only [created_append, hcreated, hcreated', List.append_nil]
    · simp only [deleted_append, hdeleted, hdeleted', List.append_nil]
      rfl
    · have hobjects : s₁.objects = s.objects.removeTree name := congrArg Holdings.objects hheld
      rw [hheld', hheld, hobjects, List.foldl_cons]

/-! ### Removing a watch -/

/-- All that a removal can do, if the debugger refuses no deletion. -/
theorem removeWatch_cases {result : Except SessionError Bool}
    (h : (removeWatch id).run.Runs s trace result s')
    (hproper : ∀ exchange ∈ trace, exchange.Proper) :
    created trace = [] ∧
      ((s.watches.get? id = none ∧ result = .ok false ∧
        s'.holdings = { s.holdings with watches := (s.watches.remove id).2 }) ∨
      ∃ w, s.watches.get? id = some w ∧ result = .ok true ∧ deleted trace = w.roots ∧
        s'.holdings = { s.holdings with
          watches := (s.watches.remove id).2
          objects := w.roots.foldl VariableTable.removeTree s.objects }) := by
  obtain ⟨_, removed, s₁, rest, rfl, hstep, hrest⟩ := Operation.runs_bind_lift_iff.mp h
  obtain ⟨rfl, rfl, rfl⟩ := Task.runs_step_iff.mp hstep
  dsimp only [WatchRegistry.remove] at hrest
  cases hget : s.watches.get? id with
  | none =>
    rw [hget] at hrest
    obtain ⟨rfl, rfl, rfl⟩ := Operation.runs_pure_iff.mp hrest
    exact ⟨rfl, .inl ⟨rfl, rfl, rfl⟩⟩
  | some w =>
    rw [hget] at hrest
    obtain ⟨before, failure, s₂, after, rfl, hdelete, hlast⟩ :=
      Operation.runs_bind_lift_iff.mp hrest
    obtain ⟨rfl, hcreated, hdeleted, hheld⟩ := runs_deleteObjects hdelete fun exchange hmem ↦
      hproper exchange (by simp [hmem])
    obtain ⟨rfl, rfl, rfl⟩ := Operation.runs_pure_iff.mp hlast
    refine ⟨?_, .inr ⟨w, rfl, rfl, ?_, hheld⟩⟩
    · simp only [created_append, created_nil, hcreated, List.append_nil]
    · simp only [hdeleted, List.append_nil, List.nil_append]
      rfl

/-! ### Rebuilding a watch -/

/-- All that a rebuild can do, with a debugger that conforms: nothing, if there is no such watch;
otherwise the derived objects of the watch are gone, and new ones take their place together with the
new watch, or the rebuild fails and nothing does. -/
theorem rebuildWatch_cases {result : Except SessionError Unit}
    (h : (rebuildWatch depth id).run.Runs s trace result s')
    (hconf : Conforms s.objects.known trace) (horderly : s.objects.Orderly) :
    (s.watches.get? id = none ∧ result = .ok () ∧ created trace = [] ∧ s' = s) ∨
    ∃ old s₁ before after, s.watches.get? id = some old ∧ trace = before ++ after ∧
      created before = [] ∧
      s₁.holdings = { s.holdings with
        objects := old.derivedRoots.foldl VariableTable.removeTree s.objects } ∧
      ((∃ e, result = .error e ∧ s'.holdings = s₁.holdings) ∨
        ∃ w s₂, result = .ok () ∧ w.var = old.var ∧ Accounts s₁ after s₂ w.derivedRoots ∧
          w.Stands s₂.objects.known ∧
            s' = { s₂ with watches := (s₂.watches.insert id w).2 }) := by
  obtain ⟨_, registered, s₀, rest, rfl, hquery, hrest⟩ := Operation.runs_bind_lift_iff.mp h
  obtain ⟨rfl, rfl, hsame⟩ := Task.runs_query_iff.mp hquery
  obtain rfl : s = s₀ := hsame.symm
  rw [List.nil_append] at hconf ⊢
  cases hget : s.watches.get? id with
  | none =>
    rw [hget] at hrest
    obtain ⟨rfl, rfl, rfl⟩ := Operation.runs_pure_iff.mp hrest
    exact .inl ⟨rfl, rfl, rfl, rfl⟩
  | some old =>
    rw [hget] at hrest
    obtain ⟨before, _, s₁, after, rfl, hdelete, hrest⟩ := Operation.runs_bind_lift_iff.mp hrest
    obtain ⟨-, hcreated, -, hheld⟩ := runs_deleteObjects hdelete hconf.left.proper
    refine .inr ⟨old, s₁, before, after, rfl, rfl, hcreated, hheld, ?_⟩
    obtain ⟨_, ⟨limit, object⟩, s₁', rest, rfl, hquery, hrest⟩ :=
      Operation.runs_bind_lift_iff.mp hrest
    obtain ⟨rfl, hfound, hsame⟩ := Task.runs_query_iff.mp hquery
    obtain rfl : s₁ = s₁' := hsame.symm
    obtain ⟨rfl, rfl⟩ := Prod.mk.inj hfound
    have hobjects : s₁.objects = old.derivedRoots.foldl VariableTable.removeTree s.objects :=
      congrArg Holdings.objects hheld
    rw [List.nil_append] at hconf
    cases hvar : s₁.objects.get? old.var with
    | none =>
      rw [hvar] at hrest
      obtain ⟨-, rfl, rfl⟩ := Operation.runs_throw_iff.mp hrest
      exact .inl ⟨_, rfl, rfl⟩
    | some v =>
      rw [hvar] at hrest
      obtain ⟨after, ⟨built, list⟩, s₂, last, rfl, hbuild, hlast⟩ :=
        Operation.runs_bind_lift_iff.mp hrest
      have hname : v.name = old.var :=
        ((hobjects ▸ horderly.foldl_removeTree _ : s₁.objects.Orderly).of_get? hvar).1
      have hknown : v.name ∈ s₁.objects.known := hname ▸ VariableTable.mem_known_of_get? hvar
      have hsubset : s₁.objects.known ⊆ s.objects.known :=
        hobjects ▸ VariableTable.known_foldl_removeTree_subset _ _
      have hconf := hconf.tail hsubset
      obtain ⟨live, hacc, hlist, hok⟩ :=
        (builds_build _ depth v old.expression s₁ hknown []).adds hbuild hconf.left
      obtain rfl : list = live := hlist
      cases built with
      | ok w =>
        obtain ⟨value, rfl, hupdate⟩ := Operation.runs_lift_iff.mp hlast
        obtain ⟨rfl, rfl⟩ := Task.runs_update_iff.mp hupdate
        obtain ⟨hwvar, hlive, hstands⟩ := hok w rfl
        rw [List.nil_append, List.append_nil]
        exact .inr ⟨w, s₂, rfl, hwvar.trans hname, hacc.of_perm hlive, hstands, rfl⟩
      | error e =>
        obtain ⟨_, _, s₃, _, rfl, hdiscard, hthrow⟩ := Operation.runs_bind_lift_iff.mp hlast
        obtain ⟨rfl, rfl, rfl⟩ := Operation.runs_throw_iff.mp hthrow
        rw [List.append_nil] at hconf
        have hperm : list.Perm (list ++ []) := by rw [List.append_nil]
        obtain ⟨_, hacc', rfl, -⟩ := (owns_discardAll list).of_perm hperm hacc hdiscard hconf
        exact .inl ⟨e, rfl, hacc'.holdings_eq⟩

/-! ### Updating -/

/-- How the rebuilds of some watches end. -/
abbrev Outcomes : Type := List (Nat × Except SessionError Unit)

/-- Rebuilds watches one after another and notes how that goes. -/
def rebuildEach (depth : Nat) : List Nat → Task Outcomes
  | [] => return []
  | id :: rest => do
    let result ← (rebuildWatch depth id).run
    let others ← rebuildEach depth rest
    return (id, result) :: others

/-- Refreshes the watches and notes how the rebuilds go. -/
def refreshNoting (depth : Nat) (changed : List String) : Task Outcomes := do
  let (restructured, affected) ← Task.query fun s ↦
    (s.watches.restructuredBy changed, s.watches.affectedBy changed)
  let outcomes ← rebuildEach depth restructured
  let added := restructured.filter fun id ↦ !affected.contains id
  Task.update fun s ↦ ((affected ++ added).mergeSort (· ≤ ·)).foldl reportWatch s
  return outcomes

/-- Updates all variable objects and notes how the rebuilds of watches go. -/
def updateNoting (depth : Nat) : Operation (List Variable × Outcomes) := do
  let response ← Operation.request (.varUpdate none .allValues)
  let updated ← Operation.lift (Task.step (·.recordChanges (response.fields.tuples "changelist")))
  if updated.isEmpty then return (updated, [])
  else
    let outcomes ← Operation.lift (refreshNoting depth (updated.map Variable.name))
    return (updated, outcomes)

theorem map_rebuildEach (depth : Nat) (ids : List Nat) :
    (fun _ ↦ ()) <$> rebuildEach depth ids =
      ids.forM fun id ↦ (rebuildWatch depth id).run >>= fun _ ↦ pure () := by
  induction ids with
  | nil => rfl
  | cons id rest ih =>
    show _ = ((rebuildWatch depth id).run >>= fun _ ↦ pure ()) >>= fun _ ↦ rest.forM _
    rw [← ih]
    simp [rebuildEach]

theorem map_refreshNoting (depth : Nat) (changed : List String) :
    (fun _ ↦ ()) <$> refreshNoting depth changed = refreshWatches depth changed := by
  unfold refreshNoting refreshWatches
  simp only [map_bind]
  refine bind_congr fun found ↦ ?_
  rw [← map_rebuildEach]
  simp

/-- Noting how the rebuilds go changes nothing else. -/
theorem map_updateNoting (depth : Nat) : Prod.fst <$> updateNoting depth = updateObjects depth := by
  unfold updateNoting updateObjects
  simp only [map_bind]
  refine bind_congr fun response ↦ bind_congr fun updated ↦ ?_
  split
  · rfl
  · rw [← map_refreshNoting]
    simp [Operation.lift_map]

/-- The runs of an update are those of the update that notes how the rebuilds go. -/
theorem runs_updateObjects_iff {result : Except SessionError (List Variable)} :
    (updateObjects depth).run.Runs s trace result s' ↔
      ∃ noted, (updateNoting depth).run.Runs s trace noted s' ∧ result = noted.map Prod.fst := by
  rw [← map_updateNoting, ExceptT.run_map, map_eq_pure_bind, Task.runs_bind_iff]
  constructor
  · rintro ⟨before, noted, s₁, after, rfl, hrun, hpure⟩
    obtain ⟨rfl, rfl, rfl⟩ := Task.runs_pure_iff.mp hpure
    exact ⟨noted, by rwa [List.append_nil], rfl⟩
  · rintro ⟨noted, hrun, rfl⟩
    exact ⟨trace, noted, s', [], (List.append_nil trace).symm, hrun,
      Task.runs_pure_iff.mpr ⟨rfl, rfl, rfl⟩⟩

theorem holdings_foldl {α : Type} {f : Session → α → Session}
    (hf : ∀ s value, (f s value).holdings = s.holdings) (values : List α) (s : Session) :
    (values.foldl f s).holdings = s.holdings := by
  induction values generalizing s with
  | nil => rfl
  | cons value rest ih => rw [List.foldl_cons, ih, hf]

/-- No names come up by a change list. -/
theorem known_applyChanges_subset (changes : List Fields) (table : VariableTable) :
    (applyChanges changes table).2.known ⊆ table.known := by
  induction changes generalizing table with
  | nil => exact List.Subset.refl _
  | cons change rest ih =>
    exact List.Subset.trans (ih _) (VariableTable.known_applyUpdate_subset table change)

theorem holdings_recordChanges (s : Session) (changes : List Fields) :
    (s.recordChanges changes).2.holdings =
      { s.holdings with objects := (applyChanges changes s.objects).2 } :=
  holdings_foldl holdings_emit _ _

theorem holdings_reportWatch (s : Session) (id : Nat) :
    (s.reportWatch id).holdings = s.holdings := by
  unfold reportWatch
  split <;> rfl

/-- All that an update can do: nothing if the debugger refuses it; otherwise the changes are
applied, and then some watches are rebuilt. -/
theorem updateNoting_cases {result : Except SessionError (List Variable × Outcomes)}
    (h : (updateNoting depth).run.Runs s trace result s') :
    (∃ e, result = .error e ∧ created trace = [] ∧ s'.holdings = s.holdings) ∨
    ∃ response updated outcomes ids after s₁ s₂, result = .ok (updated, outcomes) ∧
      trace = ⟨(Request.varUpdate none .allValues).command, .ok response⟩ :: after ∧
        s₁.holdings = { s.holdings with
          objects := (applyChanges (response.fields.tuples "changelist") s.objects).2 } ∧
        (rebuildEach depth ids).Runs s₁ after outcomes s₂ ∧ s'.holdings = s₂.holdings := by
  rcases Operation.runs_bind_iff.mp h with
    ⟨before, response, s₀, rest, rfl, hrequest, hrest⟩ | ⟨e, rfl, hrequest⟩
  swap
  · obtain ⟨rfl, hquiet⟩ := Operation.runs_request_iff.mp hrequest
    exact .inl ⟨e, rfl, rfl, hquiet⟩
  obtain ⟨rfl, hquiet⟩ := Operation.runs_request_iff.mp hrequest
  obtain ⟨_, updated, s₁, rest, rfl, hstep, hrest⟩ := Operation.runs_bind_lift_iff.mp hrest
  obtain ⟨rfl, -, rfl⟩ := Task.runs_step_iff.mp hstep
  have hheld := holdings_recordChanges s₀ (response.fields.tuples "changelist")
  rw [hquiet, (holdings_eq_iff.mp hquiet).2.1] at hheld
  refine .inr ?_
  split_ifs at hrest
  · obtain ⟨rfl, rfl, rfl⟩ := Operation.runs_pure_iff.mp hrest
    exact ⟨response, updated, [], [], [], _, _, rfl, rfl, hheld, .done _ _, rfl⟩
  · obtain ⟨_, outcomes, s₂, last, rfl, hrefresh, hlast⟩ := Operation.runs_bind_lift_iff.mp hrest
    obtain ⟨rfl, rfl, rfl⟩ := Operation.runs_pure_iff.mp hlast
    obtain ⟨_, found, s₃, rest, rfl, hquery, hrest⟩ := Task.runs_bind_iff.mp hrefresh
    obtain ⟨rfl, rfl, rfl⟩ := Task.runs_query_iff.mp hquery
    obtain ⟨after, outcomes', s₄, last, rfl, hrebuild, hrest⟩ := Task.runs_bind_iff.mp hrest
    obtain ⟨_, _, s₅, rest, rfl, hreport, hlast⟩ := Task.runs_bind_iff.mp hrest
    obtain ⟨rfl, rfl⟩ := Task.runs_update_iff.mp hreport
    obtain ⟨rfl, rfl, rfl⟩ := Task.runs_pure_iff.mp hlast
    refine ⟨response, updated, outcomes, _, after, _, s₄, rfl, ?_, hheld, hrebuild, ?_⟩
    · simp
    · exact holdings_foldl holdings_reportWatch _ _

end Session

end DebugLink
