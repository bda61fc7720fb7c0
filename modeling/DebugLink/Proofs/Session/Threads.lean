import DebugLink.Proofs.Session.Receiving
import DebugLink.Proofs.Session.Submission
import DebugLink.Proofs.Session.Tracking
import Mathlib.Logic.Function.Iterate

/-!
Submissions and the end of a session, step by step. Each is on a thread of its own, and nothing is
held from one step to the next: a submission gets its token, is admitted by the status, registers
its handler and queues its line, and the end makes the status final before it tells those who wait.
In a row the steps are the whole (`Stage.next_in_a_row`, `Ending.next_in_a_row`). Here is what a
single step changes, and that whoever waits is told once at most, whoever goes next
(`Awaited.next_other`, `Awaited.next_self`, `Awaited.next_ending`).
-/

set_option autoImplicit false

namespace DebugLink

/-! ### Steps -/

/-- How far a submission has come. -/
inductive Stage
  | called
  | numbered (token : Token)
  | refused (e : SessionError)
  | admitted (token : Token)
  | registered (token : Token)
  /-- The line could not be queued. -/
  | unsent (token : Token)
  | sent (token : Token)
  /-- The line could not be queued, and the handler is dropped. -/
  | dropped (token : Token)
  deriving DecidableEq

namespace Stage

/-- The token under which the handler was registered, if that has been done. -/
def registered? : Stage → Option Token
  | registered token | unsent token | sent token | dropped token => some token
  | called | numbered _ | refused _ | admitted _ => none

/-- The result of the submission, if it has come to its end. -/
def result? : Stage → Option (Except SessionError Token)
  | refused e => some (.error e)
  | sent token => some (.ok token)
  | dropped _ => some (.error .terminated)
  | called | numbered _ | admitted _ | registered _ | unsent _ => none

/-- The next step of a submission. -/
def next (command : Command) (handler : Option Handler) (s : Session) : Stage → Stage × Session
  | called => (numbered (s.allocate command).1, (s.allocate command).2)
  | numbered token =>
    match s.allow token command with
    | (.ok (), s) => (admitted token, s)
    | (.error e, s) => (refused e, s)
  | admitted token => (registered token, s.registerIfAny token handler)
  | registered token =>
    if s.writable then (sent token, { s with outbox := s.outbox ++ [command.render token] })
    else (unsent token, s)
  | unsent token => (dropped token, s.cancel token)
  | stage => (stage, s)

end Stage

/-- How far the end of the session has come. -/
inductive Ending
  | called
  /-- The status is final. -/
  | announced
  /-- Those who wait are told. -/
  | told
  | finished
  deriving DecidableEq

/-- The next step of the end. -/
def Ending.next (exitCode : Option Int) (s : Session) : Ending → Ending × Session
  | called =>
    match s.terminate with
    | (true, s) => (announced, s)
    | (false, s) => (finished, s)
  | announced => (told, s.failAll)
  | told => (finished, s.emit (.sessionEnded exitCode))
  | finished => (finished, s)

/-- What a caller who submits a command wants to know. -/
inductive Interest
  | nothing
  /-- A callback is to be called with the response. -/
  | callback
  /-- The caller waits for the answer. -/
  | answer
  deriving DecidableEq

/-- The handler of a caller with a ticket. -/
def Interest.handler (ticket : Nat) : Interest → Option Handler
  | nothing => none
  | callback => some .callback
  | answer => some (.waiter ticket)

/-! ### Steps in a row -/

/-- The steps of a submission, one after another, are the submission. -/
theorem Stage.next_in_a_row (s : Session) (command : Command) (handler : Option Handler) :
    let step := fun state : Stage × Session ↦ state.1.next command handler state.2
    (step^[5] (.called, s)).1.result? = some (s.submit command handler).1 ∧
      (step^[5] (.called, s)).2 = (s.submit command handler).2 := by
  simp only [Function.iterate_succ, Function.iterate_zero, Function.comp_apply, id]
  unfold Session.submit
  rw [next]
  rcases hallow : (s.allocate command).2.allow (s.allocate command).1 command with
    ⟨e | ⟨⟩, admitted⟩
  · simp [next, hallow, result?]
  · simp only [next, hallow, Session.queue]
    split_ifs <;> simp [result?]

/-- The steps of the end, one after another, are the end. -/
theorem Ending.next_in_a_row (s : Session) (exitCode : Option Int) :
    let step := fun state : Ending × Session ↦ state.1.next exitCode state.2
    step^[3] (.called, s) = (.finished, s.finish exitCode) := by
  simp only [Function.iterate_succ, Function.iterate_zero, Function.comp_apply, id]
  unfold Session.finish
  rw [next]
  rcases s.terminate with ⟨_ | _, terminated⟩
  · rfl
  · rfl

variable {s : Session} {command : Command} {handler : Option Handler} {stage : Stage}
  {ending : Ending} {exitCode : Option Int} {token : Token} {ticket : Nat} {heard : List Record}
  {registered : Option Token}

/-! ### What a step changes -/

namespace Stage

/-- The step after the admission registers the handler, and no other step does. -/
theorem registered?_next (stage : Stage) : (stage.next command handler s).1.registered? =
    match stage with
    | admitted token => some token
    | stage => stage.registered? := by
  cases stage with
  | numbered token =>
    rw [next]
    split <;> rfl
  | registered token =>
    rw [next]
    split <;> rfl
  | _ => rfl

/-- In the ledger a submission takes its number, registers its handler, and drops it when the line
could not be queued. -/
theorem ledger_next (stage : Stage) : (stage.next command handler s).2.ledger =
    match stage with
    | called => { s.ledger with nextToken := s.tokenAfter command }
    | admitted token => s.ledger.registerAny token handler
    | unsent token => s.ledger.conclude token (.error .terminated)
    | _ => s.ledger := by
  cases stage with
  | called =>
    rw [next, Session.allocate_eq]
    rfl
  | numbered token =>
    rw [next]
    rw [Session.allow_eq]
    cases s.status.beginCommand token command.resumesTarget <;> rfl
  | admitted token => exact Session.ledger_registerIfAny s token handler
  | registered token =>
    rw [next]
    split <;> rfl
  | unsent token => exact Session.ledger_cancel s token
  | refused | sent | dropped => rfl

/-- Whether lines can be queued is not changed by a submission. -/
theorem writable_next (stage : Stage) :
    (stage.next command handler s).2.writable = s.writable := by
  cases stage with
  | called =>
    rw [next, Session.allocate_eq]
  | numbered token =>
    rw [next]
    rw [Session.allow_eq]
    cases s.status.beginCommand token command.resumesTarget <;> rfl
  | admitted token => exact (Session.tells_registerIfAny s token handler).writable_eq
  | registered token =>
    rw [next]
    split <;> rfl
  | unsent token => exact (Session.tells_cancel s token).writable_eq
  | refused | sent | dropped => rfl

/-- A line is left unsent only where no line can be queued. -/
theorem next_eq_unsent (h : (stage.next command handler s).1 = unsent token) :
    s.writable = false := by
  cases stage with
  | numbered other =>
    rw [next] at h
    split at h <;> nomatch h
  | registered other =>
    rw [next] at h
    split at h
    · nomatch h
    · exact Bool.not_eq_true _ |>.mp ‹_›
  | _ => nomatch h

/-- Only one who has a number is admitted, and only as long as the session has not ended. -/
theorem next_eq_admitted (h : (stage.next command handler s).1 = admitted token) :
    stage = numbered token ∧ s.status.state ≠ .terminated := by
  cases stage with
  | numbered other =>
    rw [next] at h
    rw [Session.allow_eq] at h
    cases hbegin : s.status.beginCommand other command.resumesTarget with
    | error e =>
      rw [hbegin] at h
      nomatch h
    | ok status =>
      rw [hbegin] at h
      refine ⟨congrArg numbered (admitted.inj h), fun hended ↦ ?_⟩
      rw [Status.beginCommand_of_refuses (.inl hended)] at hbegin
      nomatch hbegin
  | registered other =>
    rw [next] at h
    split at h <;> nomatch h
  | _ => nomatch h

/-- No submission ends the session. -/
theorem terminated_next_iff (stage : Stage) :
    (stage.next command handler s).2.status.state = .terminated ↔
      s.status.state = .terminated := by
  cases stage with
  | called =>
    rw [next, Session.allocate_eq]
  | numbered token =>
    rw [next]
    rw [Session.allow_eq]
    cases hbegin : s.status.beginCommand token command.resumesTarget with
    | error e => exact Iff.rfl
    | ok status =>
      refine iff_of_false (fun hended ↦ ?_) fun hended ↦ ?_
      · nomatch (Status.state_of_beginCommand hbegin).symm.trans hended
      · rw [Status.beginCommand_of_refuses (.inl hended)] at hbegin
        nomatch hbegin
  | admitted token =>
    rw [next, (Session.tells_registerIfAny s token handler).status_eq]
  | registered token =>
    rw [next]
    split <;> rfl
  | unsent token =>
    rw [next, (Session.tells_cancel s token).status_eq]
  | refused | sent | dropped => exact Iff.rfl

/-- A handler that is found after a step was there before, or is the one just registered. -/
theorem get?_pending_next {found : Handler}
    (h : (stage.next command handler s).2.pending.get? token = some found) :
    s.pending.get? token = some found ∨ stage = admitted token ∧ handler = some found := by
  have hget : (stage.next command handler s).2.ledger.pending.get? token = some found := h
  rw [ledger_next] at hget
  cases stage with
  | admitted other =>
    cases handler with
    | none => exact .inl hget
    | some handler =>
      rcases PendingTable.get?_register_eq_some_iff.mp hget with ⟨rfl, rfl⟩ | ⟨-, hold⟩
      · exact .inr ⟨rfl, rfl⟩
      · exact .inl hold
  | unsent other => exact .inl (PendingTable.get?_take_eq_some_iff.mp hget).2
  | called | numbered | refused | registered | sent | dropped => exact .inl hget

theorem get?_pending_admitted (s : Session) (command : Command) (token : Token)
    (handler : Handler) :
    ((admitted token).next command (some handler) s).2.pending.get? token = some handler := by
  show ((admitted token).next command (some handler) s).2.ledger.pending.get? token = some handler
  rw [ledger_next]
  exact PendingTable.get?_register_eq_some_iff.mpr (.inl ⟨rfl, rfl⟩)

/-- A submission that can be sent drops no handler without putting another one in its place. -/
theorem isSome_pending_next (hsent : ∀ other, stage ≠ unsent other)
    (h : (s.pending.get? token).isSome) :
    ((stage.next command handler s).2.pending.get? token).isSome := by
  show ((stage.next command handler s).2.ledger.pending.get? token).isSome
  rw [ledger_next]
  cases stage with
  | admitted other =>
    cases handler with
    | none => exact h
    | some handler =>
      show ((s.pending.register other handler).2.get? token).isSome
      rw [PendingTable.get?_register]
      split
      · rfl
      · exact h
  | unsent other => exact absurd rfl (hsent other)
  | called | numbered | refused | registered | sent | dropped => exact h

end Stage

namespace Ending

/-- In the ledger the end does one thing: it tells those who wait. -/
theorem ledger_next (ending : Ending) : (ending.next exitCode s).2.ledger =
    match ending with
    | announced => s.ledger.failAll
    | _ => s.ledger := by
  cases ending with
  | called =>
    rw [next]
    unfold Session.terminate
    rcases s.status.terminate with ⟨_ | _, status⟩ <;> rfl
  | announced => exact Session.ledger_failAll s
  | told | finished => rfl

theorem writable_next (ending : Ending) : (ending.next exitCode s).2.writable = s.writable := by
  cases ending with
  | called =>
    rw [next]
    unfold Session.terminate
    rcases s.status.terminate with ⟨_ | _, status⟩ <;> rfl
  | announced => exact (Session.tells_failAll s).writable_eq
  | told | finished => rfl

/-- No handler is left after those who wait were told, and one that is found after another step was
there before. -/
theorem get?_pending_next {found : Handler}
    (h : (ending.next exitCode s).2.pending.get? token = some found) :
    ending ≠ announced ∧ s.pending.get? token = some found := by
  have hget : (ending.next exitCode s).2.ledger.pending.get? token = some found := h
  rw [ledger_next] at hget
  cases ending with
  | announced => nomatch hget
  | called | told | finished => exact ⟨nofun, hget⟩

/-- The first step of the end makes the status final. -/
theorem next_of_live (h : s.status.state ≠ .terminated) :
    (called.next exitCode s).1 = announced ∧
      (called.next exitCode s).2.status.state = .terminated := by
  unfold next Session.terminate Status.terminate
  rw [if_neg h]
  exact ⟨rfl, rfl⟩

/-- The end takes nothing back. -/
theorem terminated_next (ending : Ending) (h : s.status.state = .terminated) :
    (ending.next exitCode s).2.status.state = .terminated := by
  cases ending with
  | called =>
    unfold next Session.terminate Status.terminate
    rw [if_pos h]
    exact h
  | announced => rwa [next, (Session.tells_failAll s).status_eq]
  | told | finished => exact h

theorem next_ne_called (ending : Ending) : (ending.next exitCode s).1 ≠ called := by
  cases ending with
  | called =>
    unfold next
    rcases s.terminate with ⟨_ | _, terminated⟩ <;> nofun
  | announced | told | finished => nofun

end Ending

/-! ### Callers who wait -/

/-- A step of another caller may displace the handler of one who waits, who is told then. -/
theorem Awaited.next_other (h : Awaited heard ticket registered s.ledger)
    (hother : handler ≠ some (.waiter ticket)) (stage : Stage) :
    Awaited heard ticket registered (stage.next command handler s).2.ledger := by
  rw [Stage.ledger_next]
  cases stage with
  | called => exact h.congr rfl rfl
  | admitted token =>
    cases handler with
    | none => exact h
    | some handler => exact h.register_other fun heq ↦ hother (congrArg some heq)
  | unsent token => exact h.conclude (.inl rfl)
  | numbered | refused | registered | sent | dropped => exact h

/-- One who waits registers his own handler once. -/
theorem Awaited.next_self (h : Awaited heard ticket stage.registered? s.ledger) :
    Awaited heard ticket (stage.next command (some (.waiter ticket)) s).1.registered?
      (stage.next command (some (.waiter ticket)) s).2.ledger := by
  rw [Stage.ledger_next, Stage.registered?_next]
  cases stage with
  | called => exact h.congr rfl rfl
  | admitted token => exact h.register_self token
  | unsent token => exact h.conclude (.inl rfl)
  | numbered | refused | registered | sent | dropped => exact h

/-- The end tells one who waits, if nobody has told him before. -/
theorem Awaited.next_ending (h : Awaited heard ticket registered s.ledger) (ending : Ending) :
    Awaited heard ticket registered (ending.next exitCode s).2.ledger := by
  rw [Ending.ledger_next]
  cases ending with
  | announced => exact h.failAll
  | called | told | finished => exact h

/-- Two callers have two tickets. -/
theorem Interest.handler_ne {other : Nat} (hother : other ≠ ticket) (interest : Interest) :
    interest.handler other ≠ some (.waiter ticket) := by
  cases interest <;> simp [handler, hother]

end DebugLink
