import DebugLink.Proofs.Session.Pending
import DebugLink.Proofs.Session.Telling

/-!
The ledger of a session: who waits for which token, who was told what, and which token and ticket
come next. Whatever else a session does when it takes in a record or submits a command, its ledger
changes only as `Ledger.receive` and `Ledger.submit` say (`ledger_receive`, `submit_auto`), so what
is proved about handlers and their answers is proved about ledgers.
-/

set_option autoImplicit false

namespace DebugLink

/-- What a session keeps about its commands. -/
structure Ledger where
  pending : PendingTable
  nextToken : Token
  nextTicket : Nat
  /-- What those who wait were told, by ticket, the first one first. -/
  told : List (Nat × Except SessionError Response)
  /-- The responses for which a callback was called, the first one first. -/
  calls : List Response

/-- The command that a record answers, and how it ends: with the record as response, or with the
message of an error record. -/
def Record.conclusion? : Record → Option (Token × Except SessionError Response)
  | .async _ (some token) cls fields => some (token, .ok ⟨token, cls, fields⟩)
  | .result (some token) cls fields =>
    if cls = "error" then
      some (token, .error (.command token ((fields.text? "msg").getD "unknown error")))
    else some (token, .ok ⟨token, cls, fields⟩)
  | _ => none

/-- How far a submission gets. -/
inductive Admission
  /-- The status does not admit the command. -/
  | refused
  /-- The command is admitted, but its line cannot be queued. -/
  | unsent
  /-- The line is queued. -/
  | sent
  deriving DecidableEq, Repr

/-- What a handler is told when its command ends, by its ticket. -/
def Handler.notices (result : Except SessionError Response) :
    Handler → List (Nat × Except SessionError Response)
  | .callback => []
  | .waiter ticket => [(ticket, result)]

/-- What a callback is called with when its command ends: the response, or nothing at all. -/
def Handler.responses (result : Except SessionError Response) : Handler → List Response
  | .callback => result.toOption.toList
  | .waiter _ => []

/-- Of what a handler is told its own ticket gets all, and another one nothing. -/
theorem Handler.filter_notices (found : Option Handler) (result : Except SessionError Response)
    (ticket : Nat) : (found.toList.flatMap (Handler.notices result)).filter (·.1 = ticket) =
      if found = some (.waiter ticket) then [(ticket, result)] else [] := by
  rcases found with _ | _ | other
  · rfl
  · rfl
  · by_cases hother : other = ticket
    · simp [notices, hother]
    · simp [notices, hother]

namespace Ledger

/-- Tells a handler, if there is one, how its command ended. -/
def settle (l : Ledger) (result : Except SessionError Response) (handler : Option Handler) :
    Ledger :=
  { l with
    told := l.told ++ handler.toList.flatMap (Handler.notices result)
    calls := l.calls ++ handler.toList.flatMap (Handler.responses result) }

/-- Takes the handler of a token, if there is one, and tells it how its command ended. -/
def conclude (l : Ledger) (token : Token) (result : Except SessionError Response) : Ledger :=
  settle { l with pending := (l.pending.take token).2 } result (l.pending.get? token)

/-- Registers a handler; one that was there before is dropped. -/
def register (l : Ledger) (token : Token) (handler : Handler) : Ledger :=
  settle { l with pending := (l.pending.register token handler).2 } (.error .terminated)
    (l.pending.get? token)

def registerAny (l : Ledger) (token : Token) : Option Handler → Ledger
  | some handler => l.register token handler
  | none => l

/-- What a record changes. -/
def receive (l : Ledger) (record : Record) : Ledger :=
  match record.conclusion? with
  | some (token, result) => l.conclude token result
  | none => l

/-- What the submission of a command under the next token changes. -/
def submit (l : Ledger) (token : Token) (handler : Option Handler) (admission : Admission) :
    Ledger :=
  let next := { l with nextToken := l.nextToken + 1 }
  match admission with
  | .refused => next
  | .unsent => (next.registerAny token handler).conclude token (.error .terminated)
  | .sent => next.registerAny token handler

/-- Removes all handlers and tells those who wait that the session has ended. -/
def failAll (l : Ledger) : Ledger :=
  { l with
    pending := PendingTable.empty
    told := l.told ++ l.pending.failAll.1.map fun ticket ↦ (ticket, .error .terminated) }

variable (l : Ledger) (token : Token) (handler : Option Handler) (admission : Admission)
  (record : Record)

/-- Where nobody waits nothing is told. -/
theorem settle_none (result : Except SessionError Response) : l.settle result none = l := by
  simp [settle]

/-- What is told when a command ends is how it ended, and to its handler alone. -/
theorem mem_told_conclude {l : Ledger} {token : Token} {ticket : Nat}
    {result result' : Except SessionError Response} :
    (ticket, result') ∈ (l.conclude token result).told ↔
      (ticket, result') ∈ l.told ∨
        l.pending.get? token = some (.waiter ticket) ∧ result' = result := by
  have htold : (l.conclude token result).told =
      l.told ++ (l.pending.get? token).toList.flatMap (Handler.notices result) := rfl
  rw [htold, List.mem_append]
  refine or_congr_right ?_
  rcases l.pending.get? token with _ | _ | other
  · simp
  · simp [Handler.notices]
  · simp [Handler.notices, eq_comm]

/-- Each submission uses one token. -/
theorem submit_nextToken : (l.submit token handler admission).nextToken = l.nextToken + 1 := by
  cases admission <;> cases handler <;> rfl

/-- A submission hands out no ticket. -/
theorem submit_nextTicket : (l.submit token handler admission).nextTicket = l.nextTicket := by
  cases admission <;> cases handler <;> rfl

/-- Records use no token. -/
theorem receive_nextToken : (l.receive record).nextToken = l.nextToken := by
  unfold receive
  split <;> rfl

/-- Records hand out no ticket. -/
theorem receive_nextTicket : (l.receive record).nextTicket = l.nextTicket := by
  unfold receive
  split <;> rfl

end Ledger

/-- The ticket and the result of a signal that is an answer. -/
def Signal.answer? : Signal → Option (Nat × Except SessionError Response)
  | .answered ticket result => some (ticket, result)
  | .updateDue => none

namespace Session

/-- What those who wait were told, by ticket, the first one first. -/
def answers (s : Session) : List (Nat × Except SessionError Response) :=
  s.signals.filterMap Signal.answer?

/-- The ledger of a session. -/
def ledger (s : Session) : Ledger :=
  ⟨s.pending, s.nextToken, s.nextTicket, s.answers, s.calls⟩

variable (s : Session) (token : Token) (result : Except SessionError Response)

/-! ### Handlers -/

/-- Settling a handler is entered as such. -/
theorem ledger_settle (handler : Handler) :
    (s.settle result handler).ledger = s.ledger.settle result (some handler) := by
  cases handler with
  | callback =>
    cases result <;>
      simp [settle, ledger, answers, Ledger.settle, Handler.notices, Handler.responses,
        Except.toOption]
  | waiter ticket =>
    simp [settle, signal, ledger, answers, Ledger.settle, Signal.answer?, Handler.notices,
      Handler.responses]

/-- Dropping a handler is entered as its end with the session. -/
theorem ledger_drop (handler : Option Handler) :
    (s.drop handler).ledger = s.ledger.settle (.error .terminated) handler := by
  cases handler with
  | none => exact (s.ledger.settle_none _).symm
  | some handler => exact ledger_settle s _ handler

/-- Registering is entered as such. -/
theorem ledger_register (handler : Handler) :
    (s.register token handler).ledger = s.ledger.register token handler :=
  ledger_drop _ _

/-- Registering is entered as such, if there is a handler. -/
theorem ledger_registerIfAny (handler : Option Handler) :
    (s.registerIfAny token handler).ledger = s.ledger.registerAny token handler := by
  cases handler with
  | none => rfl
  | some handler => exact ledger_register s token handler

/-- To drop a handler is to tell it that the session has ended. -/
theorem ledger_cancel : (s.cancel token).ledger = s.ledger.conclude token (.error .terminated) :=
  ledger_drop _ _

/-- An answer is entered as the end of its command. -/
theorem ledger_answer : (s.answer token result).ledger = s.ledger.conclude token result := by
  unfold answer Ledger.conclude
  have htake : s.pending.take token = (s.pending.get? token, (s.pending.take token).2) := rfl
  have hpending : s.ledger.pending = s.pending := rfl
  rw [htake, hpending]
  cases hget : s.pending.get? token with
  | none =>
    rw [PendingTable.take_of_get?_eq_none hget]
    exact (s.ledger.settle_none result).symm
  | some handler => exact ledger_settle _ result handler

/-- The failure of all is entered as such. -/
theorem ledger_failAll : s.failAll.ledger = s.ledger.failAll := by
  have hfold : ∀ (tickets : List Nat) (s : Session),
      (tickets.foldl (fun s ticket ↦ s.signal (.answered ticket (.error .terminated))) s).ledger =
        { s.ledger with
          told := s.ledger.told ++ tickets.map fun ticket ↦ (ticket, .error .terminated) } := by
    intro tickets
    induction tickets with
    | nil => simp
    | cons ticket rest ih =>
      intro s
      rw [List.foldl_cons, ih]
      simp [signal, ledger, answers, Signal.answer?]
  exact hfold _ _

/-! ### What leaves the ledger alone -/

/-- An event is no entry. -/
@[simp]
theorem ledger_emit (event : Event) : (s.emit event).ledger = s.ledger :=
  rfl

/-- Another thread is no entry. -/
@[simp]
theorem ledger_switchThread (thread : Nat) : (s.switchThread thread).ledger = s.ledger := by
  unfold switchThread
  dsimp only
  split_ifs <;> rfl

/-- Another frame is no entry. -/
@[simp]
theorem ledger_changeFrame (frame : Frame) : (s.changeFrame frame).ledger = s.ledger :=
  rfl

/-- The context of a record is no entry. -/
@[simp]
theorem ledger_applyContext (fields : Fields) : (s.applyContext fields).ledger = s.ledger := by
  unfold applyContext
  dsimp only
  split <;> split <;> simp

/-- Storing a breakpoint is no entry. -/
@[simp]
theorem ledger_upsertBreakpoint (fields : Fields) :
    (s.upsertBreakpoint fields).ledger = s.ledger := by
  unfold upsertBreakpoint
  split <;> rfl

/-- Forgetting a breakpoint is no entry. -/
@[simp]
theorem ledger_forgetBreakpoint (number : Nat) : (s.forgetBreakpoint number).ledger = s.ledger := by
  unfold forgetBreakpoint
  split <;> rfl

/-- Scheduling a refresh is no entry. -/
@[simp]
theorem ledger_scheduleIfStopped (cls : String) : (s.scheduleIfStopped cls).ledger = s.ledger := by
  unfold scheduleIfStopped scheduleUpdate
  split_ifs
  · simp [signal, ledger, answers, Signal.answer?]
  · rfl
  · rfl

/-- A notification is no entry. -/
@[simp]
theorem ledger_applyNotice (cls : String) (fields : Fields) :
    (s.applyNotice cls fields).ledger = s.ledger := by
  unfold applyNotice
  split_ifs
  · split <;> simp
  · split <;> simp
  · dsimp only
    split <;> simp
  · rfl

/-- What a result says about breakpoints is no entry. -/
@[simp]
theorem ledger_applyResult (cls : String) (fields : Fields) :
    (s.applyResult cls fields).ledger = s.ledger := by
  unfold applyResult
  split_ifs
  · split <;> simp
  · rfl

/-- Output of the target or the debugger is no entry. -/
theorem ledger_onStream (channel : Channel) (text : String) :
    (s.onStream channel text).ledger = s.ledger := by
  cases channel <;> rfl

/-! ### Records -/

/-- A response is entered as the end of the command with its token, and without a token as nothing.
-/
theorem ledger_respond (cls : String) (fields : Fields) (token : Option Token) :
    (s.respond token cls fields).ledger =
      match token with
      | some token => s.ledger.conclude token (.ok ⟨token, cls, fields⟩)
      | none => s.ledger := by
  cases token with
  | none => rfl
  | some token => exact ledger_answer s token _

/-- A record is entered as the ledger says. -/
theorem ledger_receive (record : Record) : (s.receive record).ledger = s.ledger.receive record := by
  cases record with
  | stream channel text => exact ledger_onStream s channel text
  | async notice token cls fields =>
    cases notice <;> cases token <;>
      simp [receive, onExec, onNotify, onProgress, ledger_respond, Ledger.receive,
        Record.conclusion?] <;> rfl
  | result token cls fields =>
    by_cases hcls : cls = "error"
    · cases token <;>
        simp [receive, onError, hcls, ledger_answer, Ledger.receive, Record.conclusion?] <;> rfl
    · cases token <;>
        simp [receive, onResult, hcls, ledger_respond, Ledger.receive, Record.conclusion?] <;> rfl
  | prompt => rfl

/-! ### What stays registered -/

/-- After a cancellation no handler waits that did not wait before. -/
theorem pending_cancel {s : Session} {token other : Token} {found : Handler}
    (h : (s.cancel other).pending.get? token = some found) : s.pending.get? token = some found := by
  have hget : (s.cancel other).ledger.pending.get? token = some found := h
  rw [ledger_cancel] at hget
  exact (PendingTable.get?_take_eq_some_iff.mp hget).2

/-- After a record no handler waits that did not wait before. -/
theorem pending_receive {s : Session} {token : Token} {record : Record} {found : Handler}
    (h : (s.receive record).pending.get? token = some found) :
    s.pending.get? token = some found := by
  have hget : (s.receive record).ledger.pending.get? token = some found := h
  rw [ledger_receive, Ledger.receive] at hget
  split at hget
  · exact (PendingTable.get?_take_eq_some_iff.mp hget).2
  · exact hget

/-! ### Submissions -/

/-- How far the submission of a command gets. -/
def admission (command : Command) : Admission :=
  match s.status.beginCommand s.nextToken command.resumesTarget with
  | .error _ => .refused
  | .ok _ => if s.writable then .sent else .unsent

/-- A command without a chosen token gets the next one, whether it is sent or not; its handler stays
registered only if it is sent. -/
theorem submit_auto {command : Command} (hauto : command.token = none) (handler : Option Handler) :
    (∀ token, (s.submit command handler).1 = .ok token ↔
        s.admission command = .sent ∧ token = s.nextToken) ∧
      (s.submit command handler).2.ledger =
        s.ledger.submit s.nextToken handler (s.admission command) := by
  have htoken : s.tokenFor command = s.nextToken := by rw [tokenFor, hauto, Option.getD_none]
  have hafter : s.tokenAfter command = s.nextToken + 1 := by
    rw [tokenAfter, hauto]
    rfl
  have hcases := submit_cases s command handler
  rw [htoken, hafter] at hcases
  unfold admission
  rcases hcases with ⟨e, hrefused, heq⟩ | ⟨status, registered, hadmitted, hregistered, hqueued⟩
  · rw [heq, hrefused]
    exact ⟨by simp, rfl⟩
  · have hledger : registered.ledger = { s.ledger with nextToken := s.nextToken + 1 }.registerAny
        s.nextToken handler := hregistered ▸ ledger_registerIfAny _ s.nextToken handler
    rw [hadmitted]
    rcases hqueued with ⟨hopen, heq⟩ | ⟨hclosed, heq⟩
    · rw [heq, hopen]
      exact ⟨by simp [eq_comm], hledger⟩
    · rw [heq, hclosed]
      refine ⟨by simp, ?_⟩
      rw [ledger_cancel, hledger]
      rfl

end Session

end DebugLink
