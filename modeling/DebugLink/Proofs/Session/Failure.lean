import DebugLink.Proofs.Session.Ending
import DebugLink.Proofs.Status.Resumption

/-!
Error records. An error record takes the handler of its own command and tells whoever waits of the
error, and it is reported; beyond that it changes the run state only (`Session.receive_error`). The
target is taken to have stopped exactly if the command is the one whose token is recorded
(`Status.onResult_error_iff`), and that is the command which set the target running and since when
it runs (`Status.RunsSince`). That is read off the calls that have led to the status, and the status
of every session at work is one that calls have led to (`World.exists_calls`).
-/

set_option autoImplicit false

namespace DebugLink

/-! ### The command that set the target running -/

namespace Status

variable {status : Status} {calls : List Call} {call : Call} {token : Token}

/-- Whether the execution command of a token was accepted while the target did not run, and the
target has been running ever since. -/
def RunsSince (calls : List Call) (token : Token) : Prop :=
  ∃ earlier later, calls = earlier ++ .beginCommand token true :: later ∧
    (after earlier).running = false ∧ ((after earlier).attempt token true).1 = .ok () ∧
    ∀ between, between <+: later →
      (after (earlier ++ .beginCommand token true :: between)).running = true

/-- The token that is recorded after a call was recorded before, unless the call is an execution
command of that token which is accepted. -/
theorem recorded_of_apply (h : (call.apply status).execToken = some token) :
    status.execToken = some token ∨ call = .beginCommand token true ∧ ¬status.Closed := by
  by_cases hstate : status.state = .terminated
  · exact .inl ((sameRun_of_terminated hstate call).2.2.symm.trans h)
  · cases call with
    | beginCommand other resumes =>
      cases resumes with
      | false =>
        rw [Call.apply, attempt_plain hstate] at h
        exact .inl h
      | true =>
        rw [Call.apply] at h
        by_cases hclosed : status.Closed
        · rw [attempt_of_closed hclosed] at h
          exact .inl h
        · rw [attempt_of_not_closed hclosed] at h
          obtain rfl := Option.some.inj h
          exact .inr ⟨rfl, hclosed⟩
    | onAsync cls =>
      rw [Call.apply] at h
      by_cases hrunning : cls = "running"
      · rw [hrunning, onAsync_running hstate] at h
        exact .inl h
      · by_cases hstopped : cls = "stopped"
        · rw [hstopped, onAsync_stopped hstate] at h
          cases h
        · rw [onAsync_other hrunning hstopped] at h
          exact .inl h
    | onResult other cls =>
      rw [Call.apply, onResult_live hstate] at h
      by_cases haborts : status.Aborts other cls
      · rw [if_pos haborts, if_pos haborts] at h
        cases h
      · rw [if_neg haborts, if_neg haborts] at h
        exact .inl h
    | updateThread thread => exact .inl h
    | setFrame frame => exact .inl h
    | terminate =>
      rw [terminate_live hstate] at h
      cases h

/-- The token that is recorded is that of the command which set the target running. -/
theorem runsSince_of_recorded (h : (after calls).execToken = some token) :
    RunsSince calls token := by
  induction calls using List.reverseRecOn with
  | nil => cases h
  | append_singleton calls call ih =>
    have hruns := (sound_after (calls ++ [call])).running_of_token token h
    rw [after_append_singleton] at h
    rcases recorded_of_apply h with hbefore | ⟨rfl, hopen⟩
    · obtain ⟨earlier, later, rfl, hstill, haccepted, hsince⟩ := ih hbefore
      refine ⟨earlier, later ++ [call], by simp, hstill, haccepted, fun between hbetween ↦ ?_⟩
      rcases List.prefix_concat_iff.mp hbetween with rfl | hprefix
      · simpa using hruns
      · exact hsince between hprefix
    · obtain ⟨-, hstill⟩ := not_or.mp hopen
      refine ⟨calls, [], rfl, Bool.eq_false_iff.mpr hstill, ?_, fun between hbetween ↦ ?_⟩
      · rw [attempt_of_not_closed hopen]
      · rw [List.prefix_nil.mp hbetween]
        exact hruns

/-- After an error the target is taken to have stopped exactly if the token is the recorded one. -/
theorem onResult_error_iff (hsound : status.Sound) (token : Option Token) :
    (status.running = true ∧ (status.onResult token "error").running = false) ↔
      ∃ t, token = some t ∧ status.execToken = some t := by
  constructor
  · rintro ⟨hruns, hstops⟩
    rw [onResult_live (hsound.live_of_running hruns)] at hstops
    by_cases haborts : status.Aborts token "error"
    · obtain ⟨t, rfl⟩ := Option.isSome_iff_exists.mp haborts.1.1
      exact ⟨t, rfl, haborts.1.2.symm⟩
    · rw [if_neg haborts, hruns] at hstops
      cases hstops
  · rintro ⟨t, rfl, hrecorded⟩
    have hruns := hsound.running_of_token t hrecorded
    have haborts : status.Aborts (some t) "error" := ⟨⟨rfl, hrecorded.symm⟩, by decide⟩
    rw [onResult_live (hsound.live_of_running hruns), if_pos haborts]
    exact ⟨hruns, rfl⟩

/-- An error does not set the target running. -/
theorem running_of_onResult {token : Option Token} {cls : String}
    (h : (status.onResult token cls).running = true) : status.running = true := by
  by_cases hstate : status.state = .terminated
  · rwa [onResult, if_pos hstate] at h
  · rw [onResult_live hstate] at h
    by_cases haborts : status.Aborts token cls
    · rw [if_pos haborts] at h
      cases h
    · rwa [if_neg haborts] at h

end Status

/-! ### Error records -/

namespace Session

/-- What is said to whoever waits for the answer under a token when the answer is an error. -/
def rejections (s : Session) (token : Option Token) (message : String) : List Signal :=
  (token.bind fun token ↦ ((s.pending.get? token).bind Handler.ticket?).map fun ticket ↦
    .answered ticket (.error (.command token message))).toList

/-- Everything that an error record does. -/
theorem receive_error (s : Session) (token : Option Token) (fields : Fields) :
    s.receive (.result token "error" fields) =
      { s with
        status := s.status.onResult token "error"
        pending := ⟨s.pending.handlers.filter fun entry ↦ some entry.1 ≠ token⟩
        signals := s.signals ++ s.rejections token ((fields.text? "msg").getD "unknown error")
        events := s.events ++ [.error token ((fields.text? "msg").getD "unknown error")] } := by
  rw [receive, if_pos rfl]
  unfold onError
  cases token with
  | none => simp [rejections, emit]
  | some token =>
    have hpending : (⟨s.pending.handlers.filter fun entry ↦ some entry.1 ≠ some token⟩ :
        PendingTable) = (s.pending.take token).2 := by
      simp [PendingTable.take]
    have htake : s.pending.take token = (s.pending.get? token, (s.pending.take token).2) := rfl
    rw [hpending]
    unfold answer rejections
    dsimp only
    rw [htake]
    cases hget : s.pending.get? token with
    | none => simp [emit, hget, PendingTable.take_of_get?_eq_none hget]
    | some handler =>
      cases handler with
      | callback => simp [settle, emit, hget, Handler.ticket?]
      | waiter ticket => simp [settle, signal, emit, hget, Handler.ticket?]

end Session

/-! ### Sessions at work -/

namespace Session

variable {s s' : Session}

/-- Whether calls have led to the status of a session. -/
def Called (s : Session) : Prop :=
  ∃ calls, s.status = Status.after calls

theorem Called.of_calls (h : s.Called) (calls : List Status.Call)
    (hstatus : s'.status = calls.foldl Status.Call.apply s.status) : s'.Called := by
  obtain ⟨earlier, hearlier⟩ := h
  exact ⟨earlier ++ calls, by rw [hstatus, hearlier, Status.after, Status.after, List.foldl_append]⟩

theorem Called.of_status_eq (h : s.Called) (hstatus : s'.status = s.status) : s'.Called :=
  h.of_calls [] hstatus

/-- To the status a submission is a command that begins. -/
theorem status_submit (s : Session) (command : Command) (handler : Option Handler) :
    (s.submit command handler).2.status =
      Status.Call.apply s.status (.beginCommand (s.tokenFor command) command.resumesTarget) := by
  rw [Status.Call.apply, Status.attempt_eq]
  rcases submit_cases s command handler with
    ⟨e, hrefused, heq⟩ | ⟨status, registered, hadmitted, rfl, hqueued⟩
  · rw [heq, hrefused]
  · have hregister := tells_registerIfAny { s with nextToken := s.tokenAfter command, status }
      (s.tokenFor command) handler
    rw [hadmitted]
    rcases hqueued with ⟨-, heq⟩ | ⟨-, heq⟩
    · rw [heq]
      exact hregister.status_eq
    · rw [heq]
      exact (hregister.trans (tells_cancel _ _)).status_eq

theorem status_finish (s : Session) (exitCode : Option Int) :
    (s.finish exitCode).status = Status.Call.apply s.status .terminate := by
  unfold finish terminate Status.Call.apply Status.terminate
  by_cases hstate : s.status.state = .terminated
  · rw [if_pos hstate]
  · rw [if_neg hstate]
    exact (tells_failAll _).status_eq

theorem called_start (options : SessionOptions) : (start options).Called :=
  ⟨[], rfl⟩

/-- Whatever happens to a session is calls to its status, or does not concern the status. -/
theorem enduring_called : Enduring Called where
  newTicket h := h
  submit h command handler := h.of_calls [.beginCommand _ _] (status_submit _ command handler)
  cancel h token := h.of_status_eq (tells_cancel _ token).status_eq
  receiveLine h line := by
    obtain ⟨calls, -, hstatus⟩ := status_receiveLine_eq _ line
    exact h.of_calls calls hstatus
  receiveTarget h _ := h
  finish h exitCode := h.of_calls [.terminate] (status_finish _ exitCode)
  written h := h
  closed h := h
  hold h _ _ _ := h
  report h _ _ := h
  forgetBreakpoint h number := h.of_calls [] (takesBy_forgetBreakpoint _ number).2
  recordEnabled h numbers enabled := h.of_status_eq (by
    unfold recordEnabled
    dsimp only
    rw [emitAll_eq])
  recordCondition h number condition := by
    refine h.of_status_eq ?_
    unfold recordCondition
    dsimp only
    split <;> rfl
  loaded h _ := h

end Session

/-- Whatever happens to a session at work, its status is one that calls have led to. -/
theorem World.exists_calls {σ : Type} (debugger : Debugger σ) (options : SessionOptions)
    (state : σ) (happenings : List Happening) :
    ∃ calls, ((World.start options state).run debugger happenings).session.status =
      Status.after calls :=
  have hstart : (World.start options state : World σ Unit).Upholds Session.Called :=
    upholds_start options state (Session.called_start options)
  (upholds_run debugger Session.enduring_called hstart happenings).session

namespace Session

/-- An error record touches no other request than its own, whatever its fields are. Breakpoints,
frame, thread, objects and watches are as before. The handler of its token is taken and those of all
other tokens stay; no callback is called, and whoever waits for the token, and nobody else, is told
of the error with the token and the message. The error is published and nothing else is. The target
is not set running, and in a session to whose status calls have led, as they have in every session
at work, it is taken to have stopped exactly if the token is the recorded one, which is that of the
command that set it running. -/
theorem error_concerns_own (s : Session) (token : Option Token) (fields : Fields) :
    let s' := s.receive (.result token "error" fields)
    let message := (fields.text? "msg").getD "unknown error"
    s'.breakpoints = s.breakpoints ∧ s'.status.frame = s.status.frame ∧
      s'.status.thread = s.status.thread ∧ s'.objects = s.objects ∧ s'.watches = s.watches ∧
      s'.pending.handlers = s.pending.handlers.filter (fun entry ↦ some entry.1 ≠ token) ∧
      s'.calls = s.calls ∧
      (∀ t ticket, token = some t → s.pending.get? t = some (.waiter ticket) →
        s'.signals = s.signals ++ [.answered ticket (.error (.command t message))]) ∧
      ((∀ t ticket, token = some t → s.pending.get? t ≠ some (.waiter ticket)) →
        s'.signals = s.signals) ∧
      s'.events = s.events ++ [.error token message] ∧
      (s'.status.running = true → s.status.running = true) ∧
      (∀ calls, s.status = Status.after calls →
        (s.status.running = true ∧ s'.status.running = false ↔
          ∃ t, token = some t ∧ s.status.execToken = some t) ∧
        ∀ t, s.status.execToken = some t → Status.RunsSince calls t) ∧
      ∀ (σ : Type) (debugger : Debugger σ) (options : SessionOptions) (state : σ)
        (happenings : List Happening),
        s = ((World.start options state).run debugger happenings).session →
          ∃ calls, s.status = Status.after calls := by
  intro s' message
  have hreceive : s' = _ := s.receive_error token fields
  obtain ⟨hthread, hframe⟩ := s.status.sameContext_onResult token "error"
  rw [hreceive]
  refine ⟨rfl, hframe, hthread, rfl, rfl, rfl, rfl, ?_, fun hnobody ↦ ?_, rfl,
    Status.running_of_onResult, fun calls hcalls ↦ ⟨?_, fun t hrecorded ↦ ?_⟩, ?_⟩
  · rintro t ticket rfl hwaits
    simp [rejections, hwaits, Handler.ticket?, message]
  · have hnone : s.rejections token message = [] := by
      cases token with
      | none => rfl
      | some t =>
        cases hget : s.pending.get? t with
        | none => simp [rejections, hget]
        | some handler =>
          cases handler with
          | callback => simp [rejections, hget, Handler.ticket?]
          | waiter ticket => exact absurd hget (hnobody t ticket rfl)
    exact (congrArg (s.signals ++ ·) hnone).trans (List.append_nil _)
  · exact Status.onResult_error_iff (hcalls ▸ Status.sound_after calls) token
  · rw [hcalls] at hrecorded
    exact Status.runsSince_of_recorded hrecorded
  · rintro σ debugger options state happenings rfl
    exact World.exists_calls debugger options state happenings

/-- A session in which the target was set running and another command is under way. -/
def underWay : Session :=
  let run : Command := .plain "-exec-run" [] []
  let list : Command := .plain "-break-list" [] []
  (((start .standard).submit run (some (.waiter 0))).2.submit list (some .callback)).2

/-- The target cannot be set running after all; the record says something of a thread, too. -/
theorem error_concerns_own_of_run :
    let s' := underWay.receive (.result (some 1000001) "error"
      ⟨[("msg", .text "No executable"), ("thread-id", .text "3")]⟩)
    underWay.status.running = true ∧ s'.status.running = false ∧ s'.status.thread = none ∧
      s'.pending.handlers = [(1000002, .callback)] ∧ s'.calls = [] ∧
      s'.signals = [.answered 0 (.error (.command 1000001 "No executable"))] ∧
      s'.events = [.error (some 1000001) "No executable"] ∧
      Status.RunsSince [.beginCommand 1000001 true, .beginCommand 1000002 false] 1000001 := by
  intro s'
  obtain ⟨-, -, hthread, -, -, hpending, hcalled, htold, -, hpublished, -, hstops, -⟩ :=
    underWay.error_concerns_own (some 1000001)
      ⟨[("msg", .text "No executable"), ("thread-id", .text "3")]⟩
  obtain ⟨hiff, hsince⟩ :=
    hstops [.beginCommand 1000001 true, .beginCommand 1000002 false] (by decide +kernel)
  have hrecorded : underWay.status.execToken = some 1000001 := by decide +kernel
  obtain ⟨hruns, hstopped⟩ := hiff.mpr ⟨1000001, rfl, hrecorded⟩
  refine ⟨hruns, hstopped, hthread.trans (by decide +kernel), hpending.trans (by decide +kernel),
    hcalled, htold 1000001 0 rfl (by decide +kernel), hpublished, hsince 1000001 hrecorded⟩

end Session

end DebugLink
