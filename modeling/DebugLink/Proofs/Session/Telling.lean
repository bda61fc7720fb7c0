import DebugLink.Proofs.Status.Run
import DebugLink.Session.Receive
import Mathlib.Tactic.SplitIfs

/-!
What it takes to tell those who wait how their commands ended: at most the handlers, the signals and
the calls of a session change (`Session.Tells`). To submit a command takes in addition the next
token, the run state and a line in the outbox (`Session.tells_submit`), and to end a session the run
state and an event (`Session.tells_finish`). The run state changes without the current thread and
frame (`Status.SameContext`).
-/

set_option autoImplicit false

namespace DebugLink

/-! ### The status -/

namespace Status

/-- Whether two statuses have the same current thread and frame. -/
def SameContext (status status' : Status) : Prop :=
  status'.thread = status.thread ∧ status'.frame = status.frame

variable {status status' : Status}

/-- A status has its own thread and frame. -/
theorem sameContext_refl (status : Status) : status.SameContext status :=
  ⟨rfl, rfl⟩

/-- Beginning a command keeps the thread and the frame. -/
theorem sameContext_of_beginCommand {token : Token} {resumes : Bool}
    (h : status.beginCommand token resumes = .ok status') : status.SameContext status' := by
  unfold beginCommand attempt at h
  split_ifs at h
  all_goals
    obtain rfl := Except.ok.inj h
    exact ⟨rfl, rfl⟩

/-- An execution record keeps the thread and the frame. -/
theorem sameContext_onAsync (status : Status) (cls : String) :
    status.SameContext (status.onAsync cls) := by
  unfold onAsync
  split_ifs <;> exact ⟨rfl, rfl⟩

/-- A result keeps the thread and the frame. -/
theorem sameContext_onResult (status : Status) (token : Option Token) (cls : String) :
    status.SameContext (status.onResult token cls) := by
  unfold onResult
  dsimp only
  split_ifs <;> exact ⟨rfl, rfl⟩

/-- The end of the session keeps the thread and the frame. -/
theorem sameContext_terminate (status : Status) : status.SameContext status.terminate.2 := by
  unfold terminate
  split_ifs <;> exact ⟨rfl, rfl⟩

end Status

namespace Session

/-- Whether a session has done no more than to tell someone something: at most its handlers, its
signals and its calls are others than before. -/
def Tells (s s' : Session) : Prop :=
  ∃ pending signals calls, s' = { s with pending, signals, calls }

variable {s s₁ s' : Session}

namespace Tells

/-- To tell nobody is to tell. -/
theorem refl (s : Session) : s.Tells s :=
  ⟨s.pending, s.signals, s.calls, rfl⟩

/-- What is told in two steps is told. -/
theorem trans (h : s.Tells s₁) (h' : s₁.Tells s') : s.Tells s' := by
  obtain ⟨_, _, _, rfl⟩ := h
  obtain ⟨pending, signals, calls, rfl⟩ := h'
  exact ⟨pending, signals, calls, rfl⟩

/-- Telling leaves the status alone. -/
theorem status_eq (h : s.Tells s') : s'.status = s.status := by
  obtain ⟨_, _, _, rfl⟩ := h
  rfl

/-- Telling leaves the input open or closed as it was. -/
theorem writable_eq (h : s.Tells s') : s'.writable = s.writable := by
  obtain ⟨_, _, _, rfl⟩ := h
  rfl

/-- Telling sends nothing. -/
theorem outbox_eq (h : s.Tells s') : s'.outbox = s.outbox := by
  obtain ⟨_, _, _, rfl⟩ := h
  rfl

/-- Telling over some items. -/
theorem foldl {α : Type} {f : Session → α → Session} (hf : ∀ s item, Tells s (f s item))
    (items : List α) (s : Session) : s.Tells (items.foldl f s) :=
  List.foldlRecOn items f (refl s) fun s₁ h item _ ↦ h.trans (hf s₁ item)

end Tells

/-! ### Handlers -/

/-- The handlers may be others. -/
theorem tells_pending (s : Session) (pending : PendingTable) : s.Tells { s with pending } :=
  ⟨pending, s.signals, s.calls, rfl⟩

/-- A signal is told. -/
theorem tells_signal (s : Session) (signal : Signal) : s.Tells (s.signal signal) :=
  ⟨s.pending, _, s.calls, rfl⟩

/-- Settling a handler tells it a result. -/
theorem tells_settle (s : Session) (result : Except SessionError Response) (handler : Handler) :
    s.Tells (s.settle result handler) := by
  cases handler with
  | waiter ticket => exact tells_signal s _
  | callback =>
    cases result with
    | ok response => exact ⟨s.pending, s.signals, _, rfl⟩
    | error e => exact .refl s

/-- Dropping a handler tells it that the session has ended. -/
theorem tells_drop (s : Session) (handler : Option Handler) : s.Tells (s.drop handler) := by
  cases handler with
  | none => exact .refl s
  | some handler => exact tells_settle s _ handler

/-- Registering a handler tells at most the one that it replaces. -/
theorem tells_registerIfAny (s : Session) (token : Token) (handler : Option Handler) :
    s.Tells (s.registerIfAny token handler) := by
  cases handler with
  | none => exact .refl s
  | some handler => exact (tells_pending s _).trans (tells_drop _ _)

/-- A cancellation tells nobody. -/
theorem tells_cancel (s : Session) (token : Token) : s.Tells (s.cancel token) :=
  (tells_pending s _).trans (tells_drop _ _)

/-- An answer is told to the handler of its token. -/
theorem tells_answer (s : Session) (token : Token) (result : Except SessionError Response) :
    s.Tells (s.answer token result) := by
  unfold answer
  split
  · exact (tells_pending s _).trans (tells_settle _ _ _)
  · exact .refl s

/-- A response is told to whoever waits for it. -/
theorem tells_respond (s : Session) (token : Option Token) (cls : String) (fields : Fields) :
    s.Tells (s.respond token cls fields) := by
  cases token with
  | none => exact .refl s
  | some token => exact tells_answer s token _

/-- Scheduling a refresh is a signal. -/
theorem tells_scheduleIfStopped (s : Session) (cls : String) :
    s.Tells (s.scheduleIfStopped cls) := by
  unfold scheduleIfStopped scheduleUpdate
  split_ifs
  · exact tells_signal s _
  · exact .refl s
  · exact .refl s

/-! ### Submissions -/

/-- The token of a command that is submitted now. -/
def tokenFor (s : Session) (command : Command) : Token :=
  command.token.getD s.nextToken

/-- The next token after a command is submitted. -/
def tokenAfter (s : Session) (command : Command) : Token :=
  if command.token.isSome then s.nextToken else s.nextToken + 1

/-- A command gets the token it has chosen or the next one. -/
theorem allocate_eq (s : Session) (command : Command) :
    s.allocate command = (s.tokenFor command, { s with nextToken := s.tokenAfter command }) := by
  unfold allocate tokenFor tokenAfter
  cases command.token <;> rfl

/-- A command is refused, or it is admitted and its handler registered; then its line is queued, or
the handler is dropped because that is impossible. -/
theorem submit_cases (s : Session) (command : Command) (handler : Option Handler) :
    (∃ e, s.status.beginCommand (s.tokenFor command) command.resumesTarget = .error e ∧
      s.submit command handler = (.error e, { s with nextToken := s.tokenAfter command })) ∨
    ∃ status registered,
      s.status.beginCommand (s.tokenFor command) command.resumesTarget = .ok status ∧
      registered = registerIfAny { s with nextToken := s.tokenAfter command, status }
        (s.tokenFor command) handler ∧
      (s.writable = true ∧ s.submit command handler = (.ok (s.tokenFor command),
        { registered with outbox := s.outbox ++ [command.render (s.tokenFor command)] }) ∨
      s.writable = false ∧ s.submit command handler =
        (.error .terminated, registered.cancel (s.tokenFor command))) := by
  unfold submit
  rw [allocate_eq]
  dsimp only
  rw [allow_eq]
  dsimp only
  cases s.status.beginCommand (s.tokenFor command) command.resumesTarget with
  | error e => exact .inl ⟨e, rfl, rfl⟩
  | ok status =>
    refine .inr ⟨status, _, rfl, rfl, ?_⟩
    dsimp only [queue]
    rw [(tells_registerIfAny _ _ _).writable_eq, (tells_registerIfAny _ _ _).outbox_eq]
    cases s.writable with
    | true => exact .inl ⟨rfl, rfl⟩
    | false => exact .inr ⟨rfl, rfl⟩

/-- A submission changes at most the next token, the run state and the outbox, and tells someone
something. -/
theorem tells_submit (s : Session) (command : Command) (handler : Option Handler) :
    ∃ nextToken status outbox, s.status.SameContext status ∧
      Tells { s with nextToken, status, outbox } (s.submit command handler).2 := by
  rcases submit_cases s command handler with
    ⟨e, -, heq⟩ | ⟨status, registered, hadmitted, rfl, hqueued⟩
  · rw [heq]
    exact ⟨_, s.status, s.outbox, Status.sameContext_refl s.status, .refl _⟩
  · have hcontext := Status.sameContext_of_beginCommand hadmitted
    have hregister := tells_registerIfAny { s with nextToken := s.tokenAfter command, status }
      (s.tokenFor command) handler
    rcases hqueued with ⟨-, heq⟩ | ⟨-, heq⟩
    · -- Whoever is told something, the line is queued behind those that were there.
      obtain ⟨pending, signals, calls, htold⟩ := hregister
      rw [heq, htold]
      exact ⟨_, status, _, hcontext, ⟨pending, signals, calls, rfl⟩⟩
    · rw [heq]
      exact ⟨_, status, s.outbox, hcontext, hregister.trans (tells_cancel _ _)⟩

/-! ### The end -/

/-- The failure of all commands is told to their handlers. -/
theorem tells_failAll (s : Session) : s.Tells s.failAll :=
  (tells_pending s _).trans (.foldl (fun s _ ↦ tells_signal s _) _ _)

/-- The end changes the run state, tells those who wait, and is reported; or it was there before. -/
theorem tells_finish (s : Session) (exitCode : Option Int) :
    s.finish exitCode = s ∨ ∃ status s₁, s.status.SameContext status ∧
      Tells { s with status } s₁ ∧ s.finish exitCode = s₁.emit (.sessionEnded exitCode) := by
  have hcontext := Status.sameContext_terminate s.status
  unfold finish terminate
  unfold Status.terminate at hcontext ⊢
  split_ifs at hcontext ⊢
  · exact .inl rfl
  · exact .inr ⟨_, _, hcontext, tells_failAll _, rfl⟩

end Session

end DebugLink
