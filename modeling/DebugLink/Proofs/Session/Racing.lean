import DebugLink.Proofs.Session.History
import DebugLink.Proofs.Session.Sparing

/-!
A removal and updates at the same time. When the removal takes the watch out of the registry before
any update begins, the watch and all its objects are gone when all are done, whatever the order of
the steps (`Session.removed_for_good`). An update that has found the watch before is not told of the
removal: it registers the watch again, with new objects (`Session.not_always_removed`).
-/

set_option autoImplicit false

namespace DebugLink

open Variable History

variable {α β : Type} {s s₁ s' : Session} {trace : List Exchange} {depth id : Nat}

/-! ### Known orders -/

namespace Task

/-- The value of a task that is done. -/
def value? : Task α → Option α
  | done value => some value
  | _ => none

theorem eq_done_of_value? {task : Task α} {value : α} (h : task.value? = some value) :
    task = .done value := by
  unfold value? at h
  split at h
  · rw [Option.some.inj h]
  · nomatch h

theorem eq_map_done_of_mapM {others : List (Task α)} {values : List α}
    (h : others.mapM value? = some values) : others = values.map .done := by
  induction others generalizing values with
  | nil =>
    cases h
    rfl
  | cons job rest ih =>
    rw [List.mapM_cons] at h
    obtain ⟨value, hvalue, hrest⟩ := Option.bind_eq_some_iff.mp h
    obtain ⟨others, hothers, hvalues⟩ := Option.bind_eq_some_iff.mp hrest
    cases hvalues
    rw [eq_done_of_value? hvalue, ih hothers, List.map_cons]

/-- The next step of a task, with the first of the known answers if it needs one. -/
def step? : Task α → List (Except SessionError Response) → Session →
    Option (Option Exchange × List (Except SessionError Response) × Task α × Session)
  | act change next, answers, s => some (none, answers, next s, change s)
  | exchange command next, answer :: rest, s => some (some ⟨command, answer⟩, rest, next answer, s)
  | _, _, _ => none

theorem steps_of_step? {task task' : Task α} {answers rest : List (Except SessionError Response)}
    {step : Option Exchange} (h : task.step? answers s = some (step, rest, task', s')) :
    task.Steps s step task' s' := by
  unfold step? at h
  split at h
  · cases h; exact .act
  · cases h; exact .exchange _
  · nomatch h

end Task

/-- Takes the steps of a task and others in a known order, with known answers. In the order, the
others go by their positions. -/
def interleave (task : Task α) (others : List (Task β)) :
    List (Option Nat) → List (Except SessionError Response) → Session →
      Option (List Exchange × α × List β × Session)
  | [], _, s => do return ([], ← task.value?, ← others.mapM Task.value?, s)
  | none :: order, answers, s => do
    let (step, answers, task', s₁) ← task.step? answers s
    let (trace, found) ← interleave task' others order answers s₁
    return (step.toList ++ trace, found)
  | some turn :: order, answers, s => do
    let job ← others[turn]?
    let (step, answers, job', s₁) ← job.step? answers s
    let (trace, found) ← interleave task (others.set turn job') order answers s₁
    return (step.toList ++ trace, found)

theorem interleaving_of_interleave {task : Task α} {others : List (Task β)}
    {order : List (Option Nat)} {answers : List (Except SessionError Response)} {value : α}
    {values : List β}
    (h : interleave task others order answers s = some (trace, value, values, s')) :
    Interleaving task others s trace value values s' := by
  induction order generalizing task others answers s trace with
  | nil =>
    obtain ⟨first, hfirst, hfound⟩ := Option.bind_eq_some_iff.mp h
    obtain ⟨rest, hrest, heq⟩ := Option.bind_eq_some_iff.mp hfound
    cases heq
    rw [Task.eq_done_of_value? hfirst, Task.eq_map_done_of_mapM hrest]
    exact .done _ _ _
  | cons turn order ih =>
    cases turn with
    | none =>
      obtain ⟨⟨step, answers', task', s₁⟩, hstep, hrest⟩ := Option.bind_eq_some_iff.mp h
      obtain ⟨⟨after, found⟩, hfound, heq⟩ := Option.bind_eq_some_iff.mp hrest
      cases heq
      exact .first (Task.steps_of_step? hstep) (ih hfound)
    | some turn =>
      obtain ⟨job, hjob, hrest⟩ := Option.bind_eq_some_iff.mp h
      obtain ⟨⟨step, answers', job', s₁⟩, hstep, hrest⟩ := Option.bind_eq_some_iff.mp hrest
      obtain ⟨⟨after, found⟩, hfound, heq⟩ := Option.bind_eq_some_iff.mp hrest
      cases heq
      exact .other turn hjob (Task.steps_of_step? hstep) (ih hfound)

/-- An interleaving with a known order and known answers that passes a test. -/
theorem exists_interleaving {task : Task α} {others : List (Task β)} {order : List (Option Nat)}
    {answers : List (Except SessionError Response)}
    {test : List Exchange × α × List β × Session → Bool}
    (h : (interleave task others order answers s).any test) :
    ∃ trace value values s', Interleaving task others s trace value values s' ∧
      test (trace, value, values, s') := by
  rw [Option.any_eq_true] at h
  obtain ⟨⟨trace, value, values, s'⟩, hfound, htest⟩ := h
  exact ⟨trace, value, values, s', interleaving_of_interleave hfound, htest⟩

/-! ### Removing a watch -/

namespace Session

/-- What remains of a removal when the watch is taken out of the registry. -/
def finishRemoval : Option Watch → Operation Bool
  | none => return false
  | some watch => do
    match ← Operation.lift (deleteObjects (watch.var :: watch.derivedRoots)) with
    | some e => throw e
    | none => return true

theorem removeWatch_steps {removal : Task (Except SessionError Bool)} {step : Option Exchange}
    (h : (removeWatch id).run.Steps s step removal s₁) :
    step = none ∧ s₁ = { s with watches := (s.watches.remove id).2 } ∧
      removal = (finishRemoval (s.watches.get? id)).run := by
  cases (show (Task.act _ _).Steps s step removal s₁ from h)
  exact ⟨rfl, rfl, rfl⟩

variable {roots names : List String} {root : String}

theorem spares_finishRemoval (w : Watch) :
    (finishRemoval (some w)).run.Spares id roots fun result ↦ result = .ok true := by
  have hdelete : (Operation.lift (deleteObjects w.roots)).run.Spares id roots fun found ↦
      found = .ok none :=
    Task.spares_bind (spares_deleteObjects _) fun _ hnone ↦ congrArg Except.ok hnone
  refine Task.spares_bind hdelete fun found hfound ↦ ?_
  subst hfound
  exact rfl

theorem clears_deleteObject (hroot : isRootName root) :
    (deleteObject root).run.Clears root := by
  intro answer hproper
  obtain ⟨response, rfl⟩ := hproper.deleted rfl
  exact fun s ↦ .inl fun name hname ↦
    ((VariableTable.mem_known_removeTree_of_isRootName hroot).mp hname).2

theorem clears_deleteObjects (hmem : root ∈ names) (hroot : isRootName root) :
    (deleteObjects names).Clears root := by
  induction names with
  | nil => nomatch hmem
  | cons name rest ih =>
    rcases List.mem_cons.mp hmem with rfl | hrest
    · exact (clears_deleteObject hroot).bind _
    · exact Task.clears_bind _ fun _ ↦ (ih hrest).bind _

/-- A watch that is taken out of the registry before any update begins is gone for good: when the
removal and the updates are done, in whatever order they took their steps, the watch is not
registered and none of its objects is left. -/
theorem removed_for_good {options : SessionOptions} {activities : List Activity} {w : Watch}
    {earlier : List Exchange} {step : Option Exchange} {removal : Task (Except SessionError Bool)}
    {count : Nat} {result : Except SessionError Bool}
    {values : List (Except SessionError (List Variable))}
    (h : History depth (Session.start options) activities earlier s)
    (hget : s.watches.get? id = some w) (htaken : (removeWatch id).run.Steps s step removal s₁)
    (hrun : Interleaving removal (List.replicate count (updateObjects depth).run) s₁ trace result
      values s') (hconf : Conforms [] (earlier ++ trace)) :
    result = .ok true ∧ s'.watches.get? id = none ∧
      ∀ name ∈ s'.objects.known, rootOf name ∉ w.var :: w.derivedRoots := by
  have hk : Kept False _ _ s.holdings := h.kept_of_start hconf.left False.elim
  have hused := hk.used _ (hk.mem_entries hget)
  have hfits : ∀ exchange ∈ trace, exchange.Fits w.roots := by
    intro exchange hmem
    refine ⟨hconf.rest.proper exchange hmem, fun name hname hroot ↦ ?_⟩
    obtain ⟨hcreated, hdotless⟩ := hused name hroot
    exact hconf.rest.notMem_created hcreated hdotless
      (List.mem_filterMap.mpr ⟨exchange, hmem, hname⟩)
  obtain ⟨-, rfl, rfl⟩ := removeWatch_steps htaken
  rw [hget] at hrun
  have hremoved : (s.watches.remove id).2.get? id = none :=
    NumberedTable.get?_eq_none_iff.mpr fun entry hentry ↦
      of_decide_eq_true (List.mem_filter.mp hentry).2
  obtain ⟨hnone, hresult, hgone⟩ := hrun.cleared hfits hremoved (spares_finishRemoval w)
    (fun job hjob ↦ List.eq_of_mem_replicate hjob ▸ spares_updateObjects depth)
    fun root hroot ↦ .inr (((clears_deleteObjects hroot (hused root hroot).2).bind _).bind _)
  exact ⟨hresult, hnone, fun name hname hroot ↦ hgone (rootOf name) hroot name hname rfl⟩

/-- A vector gets an element while its watch is removed. The update does not find the watch. -/
theorem removed_for_good_of_update : ∃ activities earlier trace values w, ∃ s s' : Session,
    History nestingLimit (Session.start .standard) activities earlier s ∧
      s.watches.get? 1 = some w ∧ w.derivedRoots = ["var2"] ∧
      Interleaving (finishRemoval (s.watches.get? 1)).run [(updateObjects nestingLimit).run]
        { s with watches := (s.watches.remove 1).2 } trace (.ok true) values s' ∧
      s'.watches.get? 1 = none ∧
        ∀ name ∈ s'.objects.known, rootOf name ∉ w.var :: w.derivedRoots := by
  have hplay : ((performAll nestingLimit [.add "v"]).play
      [described "var1" "std::vector<int>" "{...}", described "var2" "long" "0"]
      (Session.start .standard)).any fun (earlier, _, s) ↦
        ((s.watches.get? 1).any fun w ↦ decide (w.derivedRoots = ["var2"])) &&
          (interleave (finishRemoval (s.watches.get? 1)).run [(updateObjects nestingLimit).run]
            [some 0, some 0, none, none, some 0, some 0, none, none]
            [changesOf [("var2", "1")], answered [], answered []]
            { s with watches := (s.watches.remove 1).2 }).any fun (trace, _, _, _) ↦
              decide (Conforms [] (earlier ++ trace)) := by
    decide +kernel
  obtain ⟨earlier, activities, s, hrun, htest⟩ := Task.exists_runs_of_play hplay
  dsimp only at htest
  rw [Bool.and_eq_true, Option.any_eq_true] at htest
  obtain ⟨⟨w, hget, hroots⟩, hrace⟩ := htest
  obtain ⟨trace, result, values, s', hinterleaving, hconf⟩ := exists_interleaving hrace
  have hone : Interleaving _ (List.replicate 1 (updateObjects nestingLimit).run) _ trace result
      values s' :=
    hinterleaving
  obtain ⟨rfl, hnone, hgone⟩ :=
    removed_for_good (of_runs hrun) hget .act hone (of_decide_eq_true hconf)
  exact ⟨activities, earlier, trace, values, w, s, s', of_runs hrun, hget, of_decide_eq_true hroots,
    hinterleaving, hnone, hgone⟩

/-- A vector gets an element, and its watch is removed while it is being rebuilt. The debugger does
all that it is asked to do. The removal succeeds, and in the end the watch is registered and has an
object that was created for it. -/
theorem not_always_removed : ∃ activities earlier trace values, ∃ s s' : Session,
    History nestingLimit (Session.start .standard) activities earlier s ∧
      Interleaving (removeWatch 1).run [(updateObjects nestingLimit).run] s trace (.ok true) values
        s' ∧
      Conforms [] (earlier ++ trace) ∧ (∀ exchange ∈ trace, exchange.answer.isOk) ∧
      (s.watches.get? 1).isSome ∧ (s'.watches.get? 1).isSome ∧
      created trace = ["var3"] ∧ "var3" ∈ s'.objects.known := by
  have hplay : ((performAll nestingLimit [.add "v"]).play
      [described "var1" "std::vector<int>" "{...}", described "var2" "long" "0"]
      (Session.start .standard)).any fun (earlier, _, s) ↦
        (interleave (removeWatch 1).run [(updateObjects nestingLimit).run]
          (List.replicate 7 (some 0) ++ List.replicate 5 none ++ List.replicate 4 (some 0))
          [changesOf [("var2", "1")], answered [], answered [], answered [],
            described "var3" "long" "0"] s).any fun (trace, result, _, s') ↦
              decide (result.toOption = some true ∧ Conforms [] (earlier ++ trace) ∧
                (∀ exchange ∈ trace, exchange.answer.isOk) ∧ (s.watches.get? 1).isSome ∧
                (s'.watches.get? 1).isSome ∧ created trace = ["var3"] ∧
                "var3" ∈ s'.objects.known) := by
    decide +kernel
  obtain ⟨earlier, activities, s, hrun, hrace⟩ := Task.exists_runs_of_play hplay
  obtain ⟨trace, result, values, s', hinterleaving, htest⟩ := exists_interleaving hrace
  obtain ⟨hresult, hfacts⟩ := of_decide_eq_true htest
  cases result with
  | error e => nomatch hresult
  | ok removed =>
    obtain rfl := Option.some.inj hresult
    exact ⟨activities, earlier, trace, values, s, s', of_runs hrun, hinterleaving, hfacts⟩

end Session

end DebugLink
