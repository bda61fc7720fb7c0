import DebugLink.Proofs.Session.Holdings
import DebugLink.Session.Schedule

/-!
Tasks that run alone. A command and its answer are one exchange. While a task waits for an answer
nothing happens to the holdings of the session, because only operations change them and no other
one is under way; everything else about the session may change in any way. `Task.Runs` says what a
task does for some answers, and the exchanges are its trace.
-/

set_option autoImplicit false

namespace DebugLink

/-- A command and how it ended. -/
structure Exchange where
  command : Command
  answer : Except SessionError Response

variable {α β : Type} {s s' : Session} {trace : List Exchange}

namespace Task

/-- What a task does when no other one is under way: it begins in one session, has some exchanges,
and ends with a value in another session. -/
inductive Runs : Task α → Session → List Exchange → α → Session → Prop
  | done (value : α) (s : Session) : Runs (done value) s [] value s
  | act {change : Session → Session} {next : Session → Task α} {s s' : Session}
      {trace : List Exchange} {value : α} (hnext : Runs (next s) (change s) trace value s') :
      Runs (act change next) s trace value s'
  | exchange {command : Command} {next : Except SessionError Response → Task α}
      {s s₁ s' : Session} {trace : List Exchange} {value : α}
      (answer : Except SessionError Response) (hquiet : s₁.holdings = s.holdings)
      (hnext : Runs (next answer) s₁ trace value s') :
      Runs (exchange command next) s (⟨command, answer⟩ :: trace) value s'

theorem runs_done_iff {value value' : α} :
    (done value).Runs s trace value' s' ↔ trace = [] ∧ value' = value ∧ s' = s := by
  constructor
  · rintro ⟨⟩
    exact ⟨rfl, rfl, rfl⟩
  · rintro ⟨rfl, rfl, rfl⟩
    exact .done _ _

theorem runs_pure_iff {value value' : α} :
    (pure value : Task α).Runs s trace value' s' ↔ trace = [] ∧ value' = value ∧ s' = s :=
  runs_done_iff

theorem runs_act_iff {change : Session → Session} {next : Session → Task α} {value : α} :
    (act change next).Runs s trace value s' ↔ (next s).Runs (change s) trace value s' := by
  constructor
  · rintro ⟨⟩
    assumption
  · exact .act

theorem runs_step_iff {f : Session → α × Session} {value : α} :
    (step f).Runs s trace value s' ↔ trace = [] ∧ value = (f s).1 ∧ s' = (f s).2 := by
  rw [step, runs_act_iff, runs_done_iff]

theorem runs_query_iff {f : Session → α} {value : α} :
    (query f).Runs s trace value s' ↔ trace = [] ∧ value = f s ∧ s' = s := by
  rw [query, runs_act_iff, runs_done_iff, id]

theorem runs_update_iff {f : Session → Session} {value : Unit} :
    (update f).Runs s trace value s' ↔ trace = [] ∧ s' = f s := by
  rw [update, runs_act_iff, runs_done_iff]
  exact ⟨fun h ↦ ⟨h.1, h.2.2⟩, fun h ↦ ⟨h.1, rfl, h.2⟩⟩

theorem not_runs_endless {value : α} : ¬(endless : Task α).Runs s trace value s' :=
  nofun

/-- One task after another runs as the two do. -/
theorem runs_bind_iff {task : Task α} {f : α → Task β} {value : β} :
    (task >>= f).Runs s trace value s' ↔ ∃ before middle s₁ after, trace = before ++ after ∧
      task.Runs s before middle s₁ ∧ (f middle).Runs s₁ after value s' := by
  show (task.bind f).Runs s trace value s' ↔ _
  constructor
  · intro h
    induction task generalizing s trace with
    | done middle => exact ⟨[], middle, s, trace, rfl, .done middle s, h⟩
    | act change next ih =>
      obtain ⟨before, middle, s₁, after, rfl, hfirst, hlast⟩ := ih s (runs_act_iff.mp h)
      exact ⟨before, middle, s₁, after, rfl, .act hfirst, hlast⟩
    | exchange command next ih =>
      cases h with
      | exchange answer hquiet hnext =>
        obtain ⟨before, middle, s₁, after, rfl, hfirst, hlast⟩ := ih answer hnext
        exact ⟨⟨command, answer⟩ :: before, middle, s₁, after, rfl,
          .exchange answer hquiet hfirst, hlast⟩
    | endless => exact absurd h not_runs_endless
  · rintro ⟨before, middle, s₁, after, rfl, hfirst, hlast⟩
    induction hfirst with
    | done => exact hlast
    | act _ ih => exact .act (ih hlast)
    | exchange answer hquiet _ ih => exact .exchange answer hquiet (ih hlast)

/-! ### Known answers -/

/-- Runs a task with known answers, one for each command. Nothing else happens to the session. -/
def play : Task α → List (Except SessionError Response) → Session →
    Option (List Exchange × α × Session)
  | done value, _, s => some ([], value, s)
  | act change next, answers, s => (next s).play answers (change s)
  | exchange _ _, [], _ => none
  | exchange command next, answer :: rest, s =>
    ((next answer).play rest s).map fun (trace, found) ↦ (⟨command, answer⟩ :: trace, found)
  | endless, _, _ => none

theorem runs_of_play {task : Task α} {answers : List (Except SessionError Response)} {value : α}
    (h : task.play answers s = some (trace, value, s')) : task.Runs s trace value s' := by
  induction task generalizing s trace answers with
  | done => cases h; exact .done _ _
  | act change next ih => exact .act (ih s h)
  | exchange command next ih =>
    cases answers with
    | nil => nomatch h
    | cons answer rest =>
      obtain ⟨⟨after, found⟩, hplay, heq⟩ := Option.map_eq_some_iff.mp h
      obtain ⟨rfl, rfl⟩ := Prod.mk.inj heq
      exact .exchange answer rfl (ih answer hplay)
  | endless => nomatch h

/-- A run with known answers that passes a test. -/
theorem exists_runs_of_play {task : Task α} {answers : List (Except SessionError Response)}
    {test : List Exchange × α × Session → Bool} (h : (task.play answers s).any test) :
    ∃ trace value s', task.Runs s trace value s' ∧ test (trace, value, s') := by
  cases hplay : task.play answers s with
  | none =>
    rw [hplay] at h
    nomatch h
  | some found =>
    rw [hplay] at h
    exact ⟨found.1, found.2.1, found.2.2, runs_of_play hplay, h⟩

end Task

/-! ### Operations -/

namespace Operation

theorem runs_pure_iff {value : α} {result : Except SessionError α} :
    (pure value : Operation α).run.Runs s trace result s' ↔
      trace = [] ∧ result = .ok value ∧ s' = s :=
  Task.runs_done_iff

theorem runs_throw_iff {e : SessionError} {result : Except SessionError α} :
    (throw e : Operation α).run.Runs s trace result s' ↔
      trace = [] ∧ result = .error e ∧ s' = s :=
  Task.runs_done_iff

/-- An operation after another one: the second begins only if the first succeeds. -/
theorem runs_bind_iff {operation : Operation α} {f : α → Operation β}
    {result : Except SessionError β} :
    (operation >>= f).run.Runs s trace result s' ↔
      (∃ before value s₁ after, trace = before ++ after ∧
        operation.run.Runs s before (.ok value) s₁ ∧ (f value).run.Runs s₁ after result s') ∨
      ∃ e, result = .error e ∧ operation.run.Runs s trace (.error e) s' := by
  show (operation.run >>= _ : Task (Except SessionError β)).Runs s trace result s' ↔ _
  rw [Task.runs_bind_iff]
  constructor
  · rintro ⟨before, middle, s₁, after, rfl, hfirst, hlast⟩
    cases middle with
    | ok value => exact .inl ⟨before, value, s₁, after, rfl, hfirst, hlast⟩
    | error e =>
      obtain ⟨rfl, rfl, rfl⟩ := Task.runs_done_iff.mp hlast
      exact .inr ⟨e, rfl, by rwa [List.append_nil]⟩
  · rintro (⟨before, value, s₁, after, rfl, hfirst, hlast⟩ | ⟨e, rfl, hfirst⟩)
    · exact ⟨before, .ok value, s₁, after, rfl, hfirst, hlast⟩
    · exact ⟨trace, .error e, s', [], (List.append_nil _).symm, hfirst, .done _ _⟩

theorem runs_lift_iff {task : Task α} {result : Except SessionError α} :
    (Operation.lift task).run.Runs s trace result s' ↔
      ∃ value, result = .ok value ∧ task.Runs s trace value s' := by
  show (task >>= fun value ↦ pure (.ok value)).Runs s trace result s' ↔ _
  rw [Task.runs_bind_iff]
  constructor
  · rintro ⟨before, value, s₁, after, rfl, hfirst, hlast⟩
    obtain ⟨rfl, rfl, rfl⟩ := Task.runs_done_iff.mp hlast
    exact ⟨value, rfl, by rwa [List.append_nil]⟩
  · rintro ⟨value, rfl, hrun⟩
    exact ⟨trace, value, s', [], (List.append_nil _).symm, hrun, .done _ _⟩

/-- A task that cannot fail, and what follows it. -/
theorem runs_bind_lift_iff {task : Task α} {f : α → Operation β}
    {result : Except SessionError β} :
    (Operation.lift task >>= f).run.Runs s trace result s' ↔ ∃ before value s₁ after,
      trace = before ++ after ∧ task.Runs s before value s₁ ∧
        (f value).run.Runs s₁ after result s' := by
  rw [runs_bind_iff]
  constructor
  · rintro (⟨before, value, s₁, after, rfl, hfirst, hlast⟩ | ⟨e, -, hfirst⟩)
    · obtain ⟨_, hvalue, hfirst⟩ := runs_lift_iff.mp hfirst
      exact ⟨before, value, s₁, after, rfl, Except.ok.inj hvalue ▸ hfirst, hlast⟩
    · obtain ⟨_, hvalue, -⟩ := runs_lift_iff.mp hfirst
      nomatch hvalue
  · rintro ⟨before, value, s₁, after, rfl, hfirst, hlast⟩
    exact .inl ⟨before, value, s₁, after, rfl, runs_lift_iff.mpr ⟨value, rfl, hfirst⟩, hlast⟩

theorem runs_request_iff {r : Request} {result : Except SessionError Response} :
    (Operation.request r).run.Runs s trace result s' ↔
      trace = [⟨r.command, result⟩] ∧ s'.holdings = s.holdings := by
  constructor
  · intro h
    cases (show (Task.exchange r.command .done).Runs s trace result s' from h) with
    | exchange answer hquiet hnext =>
      obtain ⟨rfl, rfl, rfl⟩ := Task.runs_done_iff.mp hnext
      exact ⟨rfl, hquiet⟩
  · rintro ⟨rfl, hquiet⟩
    exact .exchange result hquiet (.done _ _)

end Operation

end DebugLink
