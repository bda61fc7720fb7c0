import DebugLink.Proofs.Session.Building

/-!
Tasks that come to an end. A responder answers each command, and what it says may depend on all that
was exchanged before. `Task.Ensures` says of a task that with a given responder it comes to its end,
whatever happens beside it to anything but the holdings, and what holds then of its value, of the
exchanges and of the session. So it speaks about every run of the task in which the responder
answers (`Task.Ensures.of_runs`), and there is such a run (`Task.Ensures.exists_runs`).
-/

set_option autoImplicit false

namespace DebugLink

/-- How commands are answered, after the exchanges before. -/
abbrev Responder : Type :=
  List Exchange → Command → Except SessionError Response

/-- Whether the answers of some exchanges, which follow others, are those of a responder. -/
def Responder.Answers (responder : Responder) : List Exchange → List Exchange → Prop
  | _, [] => True
  | before, exchange :: rest =>
    exchange.answer = responder before exchange.command ∧
      responder.Answers (before ++ [exchange]) rest

variable {responder : Responder} {α β σ : Type} {s s' : Session} {trace : List Exchange}

/-! ### Tasks -/

namespace Task

/-- A task that begins after some exchanges comes to its end, and what holds then. -/
def Ensures (responder : Responder) (post : α → List Exchange → Session → Prop) :
    Task α → List Exchange → Session → Prop
  | done value, trace, s => post value trace s
  | act change next, trace, s => (next s).Ensures responder post trace (change s)
  | exchange command next, trace, s => ∀ s₁ : Session, s₁.holdings = s.holdings →
      (next (responder trace command)).Ensures responder post
        (trace ++ [⟨command, responder trace command⟩]) s₁
  | endless, _, _ => False

section Rules

variable {P post : α → List Exchange → Session → Prop}
  {post' : β → List Exchange → Session → Prop} {task : Task α}

theorem Ensures.mono (h : task.Ensures responder P trace s)
    (himp : ∀ value trace' s', P value trace' s' → post value trace' s') :
    task.Ensures responder post trace s := by
  induction task generalizing trace s with
  | done value => exact himp value trace s h
  | act change next ih => exact ih s h
  | exchange command next ih => exact fun s₁ hquiet ↦ ih _ (h s₁ hquiet)
  | endless => exact h

theorem ensures_pure {value : α} (h : post value trace s) :
    (pure value : Task α).Ensures responder post trace s :=
  h

theorem ensures_update {f : Session → Session} {post : Unit → List Exchange → Session → Prop}
    (h : post () trace (f s)) : (update f).Ensures responder post trace s :=
  h

theorem ensures_step {f : Session → α × Session} (h : post (f s).1 trace (f s).2) :
    (step f).Ensures responder post trace s :=
  h

theorem ensures_bind {f : α → Task β} (h : task.Ensures responder P trace s)
    (hf : ∀ value trace' s', P value trace' s' → (f value).Ensures responder post' trace' s') :
    (task >>= f).Ensures responder post' trace s := by
  show (task.bind f).Ensures responder post' trace s
  induction task generalizing trace s with
  | done value => exact hf value trace s h
  | act change next ih => exact ih s h
  | exchange command next ih => exact fun s₁ hquiet ↦ ih _ (h s₁ hquiet)
  | endless => exact h

end Rules

/-! ### Runs -/

variable {post : α → List Exchange → Session → Prop} {task : Task α} {before : List Exchange}

/-- What a task ensures holds at the end of each of its runs in which the responder answers. -/
theorem Ensures.of_runs {value : α} (h : task.Ensures responder post before s)
    (hrun : task.Runs s trace value s') (hanswers : responder.Answers before trace) :
    post value (before ++ trace) s' := by
  induction hrun generalizing before with
  | done value s => rwa [List.append_nil]
  | act _ ih => exact ih h hanswers
  | @exchange command next s s₁ s' trace value answer hquiet _ ih =>
    obtain ⟨hanswer, hrest⟩ := hanswers
    obtain rfl : answer = responder before command := hanswer
    rw [List.append_cons]
    exact ih (h s₁ hquiet) hrest

/-- Runs a task with a responder. Nothing else happens to the session. -/
def attend (responder : Responder) : Task α → List Exchange → Session →
    Option (List Exchange × α × Session)
  | done value, _, s => some ([], value, s)
  | act change next, trace, s => (next s).attend responder trace (change s)
  | exchange command next, trace, s =>
    let exchange : Exchange := ⟨command, responder trace command⟩
    ((next exchange.answer).attend responder (trace ++ [exchange]) s).map fun (rest, found) ↦
      (exchange :: rest, found)
  | endless, _, _ => none

/-- What a task ensures holds when it is run with the responder. -/
theorem Ensures.attend (h : task.Ensures responder post before s) : ∃ trace value s',
    task.attend responder before s = some (trace, value, s') ∧ post value (before ++ trace) s' := by
  induction task generalizing before s with
  | done value => exact ⟨[], value, s, rfl, by rwa [List.append_nil]⟩
  | act change next ih => exact ih s h
  | exchange command next ih =>
    obtain ⟨rest, value, s', hattend, hpost⟩ := ih _ (h s rfl)
    refine ⟨⟨command, responder before command⟩ :: rest, value, s', ?_, ?_⟩
    · rw [Task.attend]
      dsimp only
      rw [hattend, Option.map_some]
    · rwa [List.append_cons]
  | endless => exact h.elim

theorem runs_of_attend {value : α} (h : task.attend responder before s = some (trace, value, s')) :
    task.Runs s trace value s' ∧ responder.Answers before trace := by
  induction task generalizing before s trace with
  | done => cases h; exact ⟨.done _ _, trivial⟩
  | act change next ih => exact (ih s h).imp_left .act
  | exchange command next ih =>
    obtain ⟨⟨rest, found⟩, hattend, heq⟩ := Option.map_eq_some_iff.mp h
    obtain ⟨rfl, rfl⟩ := Prod.mk.inj heq
    obtain ⟨hrun, hanswers⟩ := ih _ hattend
    exact ⟨.exchange _ rfl hrun, rfl, hanswers⟩
  | endless => nomatch h

/-- A task that ensures something has a run in which the responder answers. -/
theorem Ensures.exists_runs (h : task.Ensures responder post before s) : ∃ trace value s',
    task.Runs s trace value s' ∧ responder.Answers before trace ∧
      post value (before ++ trace) s' := by
  obtain ⟨trace, value, s', hattend, hpost⟩ := h.attend
  obtain ⟨hrun, hanswers⟩ := runs_of_attend hattend
  exact ⟨trace, value, s', hrun, hanswers, hpost⟩

end Task

/-! ### Operations -/

namespace Operation

variable {P : Except SessionError α → List Exchange → Session → Prop}
  {post : Except SessionError β → List Exchange → Session → Prop}

theorem ensures_bind {operation : Operation α} {f : α → Operation β}
    (h : operation.run.Ensures responder P trace s)
    (hok : ∀ value trace' s', P (.ok value) trace' s' →
      (f value).run.Ensures responder post trace' s')
    (herror : ∀ e trace' s', P (.error e) trace' s' → post (.error e) trace' s') :
    (operation >>= f).run.Ensures responder post trace s := by
  refine Task.ensures_bind h fun result trace' s' hresult ↦ ?_
  cases result with
  | ok value => exact hok value trace' s' hresult
  | error e => exact Task.ensures_pure (herror e trace' s' hresult)

/-- A task that cannot fail, and what follows it. -/
theorem ensures_bind_lift {P : α → List Exchange → Session → Prop} {task : Task α}
    {f : α → Operation β} (h : task.Ensures responder P trace s)
    (hf : ∀ value trace' s', P value trace' s' → (f value).run.Ensures responder post trace' s') :
    (Operation.lift task >>= f).run.Ensures responder post trace s := by
  refine Task.ensures_bind (P := fun result trace' s' ↦ ∃ value, result = .ok value ∧
    P value trace' s') (Task.ensures_bind h fun value _ _ hvalue ↦ ⟨value, rfl, hvalue⟩) ?_
  rintro _ trace' s' ⟨value, rfl, hvalue⟩
  exact hf value trace' s' hvalue

/-- A request is answered by the responder. -/
theorem ensures_request (r : Request) : (Operation.request r).run.Ensures responder
    (fun result trace' s' ↦ result = responder trace r.command ∧
      trace' = trace ++ [⟨r.command, result⟩] ∧ s'.holdings = s.holdings) trace s :=
  fun _ hquiet ↦ ⟨rfl, rfl, hquiet⟩

end Operation

/-! ### Operations that keep something at hand -/

namespace Keeping

/-- An operation that keeps something at hand comes to its end with a responder, and so much holds
then of its result and of what is at hand as well. -/
def Ensures (responder : Responder) (operation : Keeping σ α) (kept : σ) (trace : List Exchange)
    (s : Session) (post : Except SessionError α → σ → List Exchange → Session → Prop) : Prop :=
  (operation.run.run kept).Ensures responder (fun found ↦ post found.1 found.2) trace s

variable {kept : σ} {post : Except SessionError α → σ → List Exchange → Session → Prop}

theorem ensures_pure {value : α} (h : post (.ok value) kept trace s) :
    Ensures responder (pure value) kept trace s post :=
  h

theorem ensures_bind_modify {f : σ → σ} {next : Unit → Keeping σ α}
    (h : Ensures responder (next ()) (f kept) trace s post) :
    Ensures responder (modify f >>= next) kept trace s post :=
  h

theorem Ensures.mono {operation : Keeping σ α}
    {post' : Except SessionError α → σ → List Exchange → Session → Prop}
    (h : Ensures responder operation kept trace s post)
    (himp : ∀ result kept' trace' s', post result kept' trace' s' →
      post' result kept' trace' s') :
    Ensures responder operation kept trace s post' :=
  Task.Ensures.mono h fun found ↦ himp found.1 found.2

theorem ensures_bind {P : Except SessionError α → σ → List Exchange → Session → Prop}
    {post : Except SessionError β → σ → List Exchange → Session → Prop} {operation : Keeping σ α}
    {f : α → Keeping σ β} (h : Ensures responder operation kept trace s P)
    (hok : ∀ value kept' trace' s', P (.ok value) kept' trace' s' →
      Ensures responder (f value) kept' trace' s' post)
    (herror : ∀ e kept' trace' s', P (.error e) kept' trace' s' →
      post (.error e) kept' trace' s') :
    Ensures responder (operation >>= f) kept trace s post := by
  show ((operation.run.run kept >>= _ : Task (Except SessionError β × σ))).Ensures responder _
    trace s
  refine Task.ensures_bind h fun found trace' s' hfound ↦ ?_
  obtain ⟨result, kept'⟩ := found
  cases result with
  | ok value => exact hok value kept' trace' s' hfound
  | error e => exact Task.ensures_pure (herror e kept' trace' s' hfound)

/-- What an operation ensures holds when it is run with the responder. -/
theorem Ensures.attend {operation : Keeping σ α}
    (h : Ensures responder operation kept trace s post) : ∃ rest result kept' s',
    (operation.run.run kept).attend responder trace s = some (rest, (result, kept'), s') ∧
      post result kept' (trace ++ rest) s' := by
  obtain ⟨rest, ⟨result, kept'⟩, s', hattend, hpost⟩ := Task.Ensures.attend h
  exact ⟨rest, result, kept', s', hattend, hpost⟩

/-- A task that cannot fail, and what follows it. -/
theorem ensures_bind_lift {P : α → List Exchange → Session → Prop}
    {post : Except SessionError β → σ → List Exchange → Session → Prop} {task : Task α}
    {f : α → Keeping σ β} (h : task.Ensures responder P trace s)
    (hf : ∀ value trace' s', P value trace' s' →
      Ensures responder (f value) kept trace' s' post) :
    Ensures responder (ExceptT.lift (StateT.lift task) >>= f) kept trace s post := by
  refine ensures_bind (P := fun result kept' trace' s' ↦ ∃ value, result = .ok value ∧
    kept' = kept ∧ P value trace' s') ?_ ?_ ?_
  · show ((task >>= fun value ↦ pure (value, kept)) >>= fun found ↦
      pure (Except.ok found.1, found.2) : Task (Except SessionError α × σ)).Ensures responder _
        trace s
    refine Task.ensures_bind (P := fun found trace' s' ↦ found.2 = kept ∧ P found.1 trace' s')
      (Task.ensures_bind h fun value _ _ hvalue ↦ ⟨rfl, hvalue⟩) ?_
    rintro ⟨value, _⟩ trace' s' ⟨rfl, hvalue⟩
    exact ⟨value, rfl, rfl, hvalue⟩
  · rintro value _ trace' s' ⟨_, ⟨⟩, rfl, hvalue⟩
    exact hf value trace' s' hvalue
  · rintro e _ _ _ ⟨_, herror, -⟩
    nomatch herror

/-- An operation that knows nothing of what is kept. -/
theorem ensures_inBuild {kept : List String} {operation : Operation α}
    {P : Except SessionError α → List Exchange → Session → Prop}
    (h : operation.run.Ensures responder P trace s) :
    Ensures responder (Session.inBuild operation) kept trace s fun result kept' trace' s' ↦
      kept' = kept ∧ P result trace' s' :=
  Task.ensures_bind h fun _ _ _ hresult ↦ ⟨rfl, hresult⟩

/-- A part of building as a part of a walk. -/
theorem ensures_inWalk {walk : Walk} {build : Build α}
    {P : Except SessionError α → List String → List Exchange → Session → Prop}
    (h : Ensures responder build walk.created trace s P) :
    Ensures responder (Session.inWalk build) walk trace s fun result walk' trace' s' ↦
      ∃ created, walk' = { walk with created } ∧ P result created trace' s' :=
  Task.ensures_bind h fun found _ _ hfound ↦ ⟨found.2, rfl, hfound⟩

end Keeping

end DebugLink
