import DebugLink.Proofs.Session.Ending
import DebugLink.Proofs.Session.Within

/-!
What a session has published about variable objects and watches, its bulletin. Only operations add
to it. Whatever comes from the debugger or the target, and whatever commands are submitted or given
up, a session rests (`Session.rests_motion`): its holdings and its bulletin stay as they are.
`Task.RunsAlone` is what a task does when the session rests while the task waits. It tells what a
task adds to the bulletin, and is a run of the task in particular (`Task.RunsAlone.runs`).

These runs are what comes about when a session performs a task: it gets as far as it can, waits, and
goes on with an answer, whatever moves it in the meantime (`Task.Performs.runsAlone`).
-/

set_option autoImplicit false

namespace DebugLink

instance : DecidablePred Event.AboutWatches
  | .watchUpdated _ | .rootUpdated _ | .watchDecoded _ _ => .isTrue trivial
  | .error _ _ | .fileChanged _ | .breakpointSet _ | .breakpointDeleted _ | .threadSwitched _
  | .frameChanged _ | .processed | .consoleOutput _ | .targetOutput _ | .sessionEnded _ =>
    .isFalse id

/-- No event that a record brings about is about watches. -/
theorem Event.OfRecord.not_aboutWatches {event : Event} (h : event.OfRecord) :
    ¬event.AboutWatches := by
  cases event with
  | watchUpdated | rootUpdated | watchDecoded => exact h.elim
  | _ => exact id

namespace Session

variable {s s₁ s' : Session}

/-- The events about variable objects and watches so far, the first one first. -/
def bulletin (s : Session) : List Event :=
  s.events.filter fun event ↦ decide event.AboutWatches

/-- An event about watches is added to the bulletin. -/
theorem bulletin_emit {event : Event} (h : event.AboutWatches) (s : Session) :
    (s.emit event).bulletin = s.bulletin ++ [event] := by
  simp [bulletin, emit, List.filter_append, h]

/-- Events about watches are added to the bulletin in order. -/
theorem bulletin_emitAll {events : List Event} (h : ∀ event ∈ events, event.AboutWatches)
    (s : Session) : (s.emitAll events).bulletin = s.bulletin ++ events := by
  unfold emitAll
  induction events generalizing s with
  | nil => exact (List.append_nil _).symm
  | cons event rest ih =>
    rw [List.foldl_cons, ih fun other hother ↦ h other (List.mem_cons_of_mem _ hother),
      bulletin_emit (h event List.mem_cons_self), List.append_assoc, List.singleton_append]

/-- What records bring about is not on the bulletin. -/
theorem Reports.bulletin_eq (h : s.Reports s') : s'.bulletin = s.bulletin := by
  obtain ⟨news, hevents, hnews⟩ := h
  have hnone : news.filter (fun event ↦ decide event.AboutWatches) = [] :=
    List.filter_eq_nil_iff.mpr fun event hevent ↦ by
      simpa using (hnews event hevent).not_aboutWatches
  unfold bulletin
  rw [hevents, List.filter_append, hnone, List.append_nil]

/-! ### Rest -/

/-- A session rests: what it holds and what it has published about that stay as they are. -/
structure Rests (s s' : Session) : Prop where
  holdings : s'.holdings = s.holdings
  bulletin : s'.bulletin = s.bulletin

/-- A session to which nothing is done rests. -/
theorem Rests.refl (s : Session) : s.Rests s :=
  ⟨rfl, rfl⟩

/-- A session rests over two steps if it rests over each. -/
theorem Rests.trans (h : s.Rests s₁) (h' : s₁.Rests s') : s.Rests s' :=
  ⟨h'.holdings.trans h.holdings, h'.bulletin.trans h.bulletin⟩

/-- A session that only tells something rests. -/
theorem Tells.rests (h : s.Tells s') : s.Rests s' :=
  ⟨holdings_of_takes h.takes, h.reports.bulletin_eq⟩

/-- Other events leave a session at rest. -/
theorem rests_emit {event : Event} (h : ¬event.AboutWatches) (s : Session) :
    s.Rests (s.emit event) :=
  ⟨rfl, by simp [bulletin, emit, List.filter_append, h]⟩

/-- Whatever the debugger or the target writes, whatever command is submitted or given up, and also
when it ends, a session rests. -/
theorem rests_motion (s : Session) (motion : Motion) : s.Rests (motion.apply s) := by
  cases motion with
  | line text =>
    refine ⟨holdings_receiveLine s text, ?_⟩
    rcases receiveLine_cases s text with hsame | ⟨record, hrecord⟩
    · exact congrArg bulletin hsame
    · exact (congrArg bulletin hrecord).trans (reports_receive s record).bulletin_eq
  | targetLine text => exact rests_emit id s
  | attempt command handler =>
    obtain ⟨nextToken, status, outbox, -, htells⟩ := tells_submit s command handler
    have hbefore : s.Rests { s with nextToken, status, outbox } := ⟨rfl, rfl⟩
    exact hbefore.trans htells.rests
  | giveUp token => exact (tells_cancel s token).rests
  | finish exitCode =>
    rcases tells_finish s exitCode with hsame | ⟨status, s₁, -, htells, hfinish⟩
    · exact (congrArg s.Rests hsame).mpr (.refl s)
    · have hbefore : s.Rests { s with status } := ⟨rfl, rfl⟩
      have hended : s₁.Rests (s₁.emit (.sessionEnded exitCode)) := rests_emit id s₁
      exact (congrArg s.Rests hfinish).mpr ((hbefore.trans htells.rests).trans hended)

/-- A submission leaves a session at rest. -/
theorem rests_submit (s : Session) (command : Command) (handler : Option Handler) :
    s.Rests (s.submit command handler).2 :=
  rests_motion s (.attempt command handler)

/-- A cancellation leaves a session at rest. -/
theorem rests_cancel (s : Session) (token : Token) : s.Rests (s.cancel token) :=
  rests_motion s (.giveUp token)

/-- What is done to a session from outside leaves it at rest. By induction on the motions. -/
theorem rests_motions (s : Session) (motions : List Motion) :
    s.Rests (motions.foldl Motion.apply s) :=
  List.foldlRecOn motions Motion.apply (.refl s) fun s₁ hbefore motion _ ↦
    hbefore.trans (rests_motion s₁ motion)

end Session

/-! ### Tasks -/

variable {α β : Type} {s s' : Session} {trace : List Exchange}

namespace Task

/-- What a task does when the session rests whenever the task waits: it begins in one session, has
some exchanges, and ends with a value in another session. -/
inductive RunsAlone : Task α → Session → List Exchange → α → Session → Prop
  | done (value : α) (s : Session) : RunsAlone (done value) s [] value s
  | act {change : Session → Session} {next : Session → Task α} {s s' : Session}
      {trace : List Exchange} {value : α} (hnext : RunsAlone (next s) (change s) trace value s') :
      RunsAlone (act change next) s trace value s'
  | exchange {command : Command} {next : Except SessionError Response → Task α}
      {s s₁ s' : Session} {trace : List Exchange} {value : α}
      (answer : Except SessionError Response) (hrest : s.Rests s₁)
      (hnext : RunsAlone (next answer) s₁ trace value s') :
      RunsAlone (exchange command next) s (⟨command, answer⟩ :: trace) value s'

/-- A task that runs alone runs. -/
theorem RunsAlone.runs {task : Task α} {value : α} (h : task.RunsAlone s trace value s') :
    task.Runs s trace value s' := by
  induction h with
  | done value s => exact .done value s
  | act _ ih => exact .act ih
  | exchange answer hrest _ ih => exact .exchange answer hrest.holdings ih

/-- A task that is done has no exchanges and changes nothing. -/
theorem runsAlone_done_iff {value value' : α} :
    (done value).RunsAlone s trace value' s' ↔ trace = [] ∧ value' = value ∧ s' = s := by
  constructor
  · rintro ⟨⟩
    exact ⟨rfl, rfl, rfl⟩
  · rintro ⟨rfl, rfl, rfl⟩
    exact .done _ _

/-- A step changes the session at once. -/
theorem runsAlone_step_iff {f : Session → α × Session} {value : α} :
    (step f).RunsAlone s trace value s' ↔ trace = [] ∧ value = (f s).1 ∧ s' = (f s).2 := by
  constructor
  · rintro ⟨⟩
    exact runsAlone_done_iff.mp ‹_›
  · rintro ⟨rfl, rfl, rfl⟩
    exact .act (.done _ _)

/-- A look at the session changes nothing. -/
theorem runsAlone_query_iff {f : Session → α} {value : α} :
    (query f).RunsAlone s trace value s' ↔ trace = [] ∧ value = f s ∧ s' = s :=
  runsAlone_step_iff (f := fun s ↦ (f s, s))

/-- A change of the session takes place at once. -/
theorem runsAlone_update_iff {f : Session → Session} {value : Unit} :
    (update f).RunsAlone s trace value s' ↔ trace = [] ∧ s' = f s := by
  refine (runsAlone_step_iff (f := fun s ↦ ((), f s))).trans ?_
  exact ⟨fun h ↦ ⟨h.1, h.2.2⟩, fun h ↦ ⟨h.1, rfl, h.2⟩⟩

/-- One task after another runs as the two do. -/
theorem runsAlone_bind_iff {task : Task α} {f : α → Task β} {value : β} :
    (task >>= f).RunsAlone s trace value s' ↔ ∃ before middle s₁ after, trace = before ++ after ∧
      task.RunsAlone s before middle s₁ ∧ (f middle).RunsAlone s₁ after value s' := by
  show (task.bind f).RunsAlone s trace value s' ↔ _
  constructor
  · intro h
    induction task generalizing s trace with
    | done middle => exact ⟨[], middle, s, trace, rfl, .done middle s, h⟩
    | act change next ih =>
      cases h with
      | act hnext =>
        obtain ⟨before, middle, s₁, after, rfl, hfirst, hlast⟩ := ih s hnext
        exact ⟨before, middle, s₁, after, rfl, .act hfirst, hlast⟩
    | exchange command next ih =>
      cases h with
      | exchange answer hrest hnext =>
        obtain ⟨before, middle, s₁, after, rfl, hfirst, hlast⟩ := ih answer hnext
        exact ⟨⟨command, answer⟩ :: before, middle, s₁, after, rfl,
          .exchange answer hrest hfirst, hlast⟩
    | endless => nomatch h
  · rintro ⟨before, middle, s₁, after, rfl, hfirst, hlast⟩
    induction hfirst with
    | done => exact hlast
    | act _ ih => exact .act (ih hlast)
    | exchange answer hrest _ ih => exact .exchange answer hrest (ih hlast)

/-! ### What a session does with a task -/

/-- How a standstill leads to the end of a task: the task is done, or it is left with an answer
after a wait in which the session rested. -/
def Leads (s : Session) (value : α) (s' : Session) : Standstill α → Prop
  | .done reached => reached = value ∧ s' = s
  | .waiting _ _ next => ∃ answer s₁ trace, s.Rests s₁ ∧ (next answer).RunsAlone s₁ trace value s'
  | .endless => False

/-- How far a session gets with a task without an answer is the beginning of a run. -/
theorem runsAlone_of_advance {task : Task α} {value : α}
    (h : Leads (task.advance s).2 value s' (task.advance s).1) :
    ∃ trace, task.RunsAlone s trace value s' := by
  induction task generalizing s with
  | done reached =>
    obtain ⟨rfl, rfl⟩ := h
    exact ⟨[], .done _ _⟩
  | act change next ih =>
    obtain ⟨trace, hrun⟩ := ih s h
    exact ⟨trace, .act hrun⟩
  | exchange command next ih =>
    have hticket : s.Rests s.newTicket.2 := ⟨rfl, rfl⟩
    have hsubmit := hticket.trans
      (s.newTicket.2.rests_submit command (some (.waiter s.newTicket.1)))
    unfold advance at h
    dsimp only at h
    rcases hresult : s.newTicket.2.submit command (some (.waiter s.newTicket.1)) with
      ⟨e | token, s₁⟩
    · rw [hresult] at h hsubmit
      obtain ⟨trace, hrun⟩ := ih (.error e) h
      exact ⟨_, .exchange _ hsubmit hrun⟩
    · rw [hresult] at h hsubmit
      dsimp only at h
      by_cases htime : s₁.options.timeout = 0
      · rw [if_pos htime] at h
        obtain ⟨trace, hrun⟩ := ih (.error (.timeout token)) h
        exact ⟨_, .exchange _ (hsubmit.trans (s₁.rests_cancel token)) hrun⟩
      · rw [if_neg htime] at h
        obtain ⟨answer, s₂, trace, hrest, hrun⟩ := h
        exact ⟨_, .exchange answer (hsubmit.trans hrest) hrun⟩
  | endless => exact h.elim

/-- A session performs a task: it gets as far as it can without an answer. If it has to wait then,
it is moved somehow, and goes on with an answer. -/
inductive Performs : Task α → Session → α → Session → Prop
  | done {task : Task α} {s s' : Session} {value : α}
      (h : task.advance s = (.done value, s')) : Performs task s value s'
  | wait {task : Task α} {s s₁ s' : Session} {ticket : Nat} {token : Token}
      {next : Except SessionError Response → Task α} {value : α}
      (h : task.advance s = (.waiting ticket token next, s₁)) (motions : List Motion)
      (answer : Except SessionError Response)
      (hnext : Performs (next answer) (motions.foldl Motion.apply s₁) value s') :
      Performs task s value s'

/-- What a session does with a task is a run of the task. -/
theorem Performs.runsAlone {task : Task α} {value : α} (h : task.Performs s value s') :
    ∃ trace, task.RunsAlone s trace value s' := by
  induction h with
  | done hadvance =>
    refine runsAlone_of_advance ?_
    rw [hadvance]
    exact ⟨rfl, rfl⟩
  | wait hadvance motions answer _ ih =>
    obtain ⟨trace, hrun⟩ := ih
    refine runsAlone_of_advance ?_
    rw [hadvance]
    exact ⟨answer, _, trace, Session.rests_motions _ motions, hrun⟩

/-! ### Known answers -/

/-- What a task does for known answers it does alone. -/
theorem runsAlone_of_play {task : Task α} {answers : List (Except SessionError Response)}
    {value : α} (h : task.play answers s = some (trace, value, s')) :
    task.RunsAlone s trace value s' := by
  induction task generalizing s trace answers with
  | done => cases h; exact .done _ _
  | act change next ih => exact .act (ih s h)
  | exchange command next ih =>
    cases answers with
    | nil => nomatch h
    | cons answer rest =>
      obtain ⟨⟨after, found⟩, hplay, heq⟩ := Option.map_eq_some_iff.mp h
      obtain ⟨rfl, rfl⟩ := Prod.mk.inj heq
      exact .exchange answer (.refl s) (ih answer hplay)
  | endless => nomatch h

/-- The answers of a run with known answers are the first ones of these. -/
theorem answers_of_play {task : Task α} {answers : List (Except SessionError Response)} {value : α}
    (h : task.play answers s = some (trace, value, s')) :
    trace.map Exchange.answer <+: answers := by
  induction task generalizing s trace answers with
  | done => cases h; exact List.nil_prefix
  | act change next ih => exact ih s h
  | exchange command next ih =>
    cases answers with
    | nil => nomatch h
    | cons answer rest =>
      obtain ⟨⟨after, found⟩, hplay, heq⟩ := Option.map_eq_some_iff.mp h
      obtain ⟨rfl, rfl⟩ := Prod.mk.inj heq
      exact List.cons_prefix_cons.mpr ⟨rfl, ih answer hplay⟩
  | endless => nomatch h

/-- A run with known answers that passes a test. -/
theorem exists_runsAlone_of_play {task : Task α} {answers : List (Except SessionError Response)}
    {test : List Exchange × α × Session → Bool} (h : (task.play answers s).any test) :
    ∃ trace value s', task.RunsAlone s trace value s' ∧ trace.map Exchange.answer <+: answers ∧
      test (trace, value, s') := by
  rw [Option.any_eq_true] at h
  obtain ⟨found, hplay, htest⟩ := h
  exact ⟨found.1, found.2.1, found.2.2, runsAlone_of_play hplay, answers_of_play hplay, htest⟩

end Task

namespace Operation

/-- An operation that only returns has no exchanges and changes nothing. -/
theorem runsAlone_pure_iff {value : α} {result : Except SessionError α} :
    (pure value : Operation α).run.RunsAlone s trace result s' ↔
      trace = [] ∧ result = .ok value ∧ s' = s :=
  Task.runsAlone_done_iff

/-- An operation after another one: the second begins only if the first succeeds. -/
theorem runsAlone_bind_iff {operation : Operation α} {f : α → Operation β}
    {result : Except SessionError β} :
    (operation >>= f).run.RunsAlone s trace result s' ↔
      (∃ before value s₁ after, trace = before ++ after ∧
        operation.run.RunsAlone s before (.ok value) s₁ ∧
          (f value).run.RunsAlone s₁ after result s') ∨
      ∃ e, result = .error e ∧ operation.run.RunsAlone s trace (.error e) s' := by
  show (operation.run >>= _ : Task (Except SessionError β)).RunsAlone s trace result s' ↔ _
  rw [Task.runsAlone_bind_iff]
  constructor
  · rintro ⟨before, middle, s₁, after, rfl, hfirst, hlast⟩
    cases middle with
    | ok value => exact .inl ⟨before, value, s₁, after, rfl, hfirst, hlast⟩
    | error e =>
      obtain ⟨rfl, rfl, rfl⟩ := Task.runsAlone_done_iff.mp hlast
      exact .inr ⟨e, rfl, by rwa [List.append_nil]⟩
  · rintro (⟨before, value, s₁, after, rfl, hfirst, hlast⟩ | ⟨e, rfl, hfirst⟩)
    · exact ⟨before, .ok value, s₁, after, rfl, hfirst, hlast⟩
    · exact ⟨trace, .error e, s', [], (List.append_nil _).symm, hfirst, .done _ _⟩

/-- A task runs as an operation as it does by itself. -/
theorem runsAlone_lift_iff {task : Task α} {result : Except SessionError α} :
    (Operation.lift task).run.RunsAlone s trace result s' ↔
      ∃ value, result = .ok value ∧ task.RunsAlone s trace value s' := by
  show (task >>= fun value ↦ pure (.ok value)).RunsAlone s trace result s' ↔ _
  rw [Task.runsAlone_bind_iff]
  constructor
  · rintro ⟨before, value, s₁, after, rfl, hfirst, hlast⟩
    obtain ⟨rfl, rfl, rfl⟩ := Task.runsAlone_done_iff.mp hlast
    exact ⟨value, rfl, by rwa [List.append_nil]⟩
  · rintro ⟨value, rfl, hrun⟩
    exact ⟨trace, value, s', [], (List.append_nil _).symm, hrun, .done _ _⟩

/-- A task that cannot fail, and what follows it. -/
theorem runsAlone_bind_lift_iff {task : Task α} {f : α → Operation β}
    {result : Except SessionError β} :
    (Operation.lift task >>= f).run.RunsAlone s trace result s' ↔ ∃ before value s₁ after,
      trace = before ++ after ∧ task.RunsAlone s before value s₁ ∧
        (f value).run.RunsAlone s₁ after result s' := by
  rw [runsAlone_bind_iff]
  constructor
  · rintro (⟨before, value, s₁, after, rfl, hfirst, hlast⟩ | ⟨e, -, hfirst⟩)
    · obtain ⟨_, hvalue, hfirst⟩ := runsAlone_lift_iff.mp hfirst
      exact ⟨before, value, s₁, after, rfl, Except.ok.inj hvalue ▸ hfirst, hlast⟩
    · obtain ⟨_, hvalue, -⟩ := runsAlone_lift_iff.mp hfirst
      nomatch hvalue
  · rintro ⟨before, value, s₁, after, rfl, hfirst, hlast⟩
    exact .inl ⟨before, value, s₁, after, rfl, runsAlone_lift_iff.mpr ⟨value, rfl, hfirst⟩, hlast⟩

/-- A request is one exchange, during which the session rests. -/
theorem runsAlone_request_iff {r : Request} {result : Except SessionError Response} :
    (Operation.request r).run.RunsAlone s trace result s' ↔
      trace = [⟨r.command, result⟩] ∧ s.Rests s' := by
  constructor
  · intro h
    cases (show (Task.exchange r.command .done).RunsAlone s trace result s' from h) with
    | exchange answer hrest hnext =>
      obtain ⟨rfl, rfl, rfl⟩ := Task.runsAlone_done_iff.mp hnext
      exact ⟨rfl, hrest⟩
  · rintro ⟨rfl, hrest⟩
    exact .exchange result hrest (.done _ _)

/-- A request and what follows its response. -/
theorem runsAlone_bind_request_iff {r : Request} {f : Response → Operation α}
    {result : Except SessionError α} :
    (Operation.request r >>= f).run.RunsAlone s trace result s' ↔
      (∃ response rest s₁, trace = ⟨r.command, .ok response⟩ :: rest ∧ s.Rests s₁ ∧
        (f response).run.RunsAlone s₁ rest result s') ∨
      ∃ e, trace = [⟨r.command, .error e⟩] ∧ result = .error e ∧ s.Rests s' := by
  rw [runsAlone_bind_iff]
  simp only [runsAlone_request_iff]
  constructor
  · rintro (⟨_, response, s₁, rest, rfl, ⟨rfl, hrest⟩, hlast⟩ | ⟨e, hresult, htrace, hrest⟩)
    · exact .inl ⟨response, rest, s₁, rfl, hrest, hlast⟩
    · exact .inr ⟨e, htrace, hresult, hrest⟩
  · rintro (⟨response, rest, s₁, htrace, hrest, hlast⟩ | ⟨e, htrace, hresult, hrest⟩)
    · exact .inl ⟨_, response, s₁, rest, htrace, ⟨rfl, hrest⟩, hlast⟩
    · exact .inr ⟨e, hresult, htrace, hrest⟩

end Operation

end DebugLink
