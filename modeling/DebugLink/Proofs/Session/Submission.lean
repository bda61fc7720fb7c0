import DebugLink.Proofs.Session.Happenings
import DebugLink.Proofs.Session.Ledger
import DebugLink.Proofs.Status.Run

/-!
What a submission that fails leaves behind. One that the status refuses leaves the run state and the
pending table as they are. One whose line cannot be queued fails after the status has admitted it:
the handlers of its token are gone, its own and any earlier one, but the status goes on as if the
command were in flight. `submit_untouched_iff` says when nothing is to be seen of that.
-/

set_option autoImplicit false

namespace DebugLink

/-! ### The status -/

namespace Status

variable {status status' : Status} {token : Token} {resumes : Bool}

/-- Whether a command is refused: the session has ended, or the target is running and the command
would resume it. -/
def Refuses (status : Status) (resumes : Bool) : Prop :=
  status.state = .terminated ∨ resumes = true ∧ status.running = true

/-- The status once a command is admitted. -/
def begun (status : Status) (token : Token) (resumes : Bool) : Status :=
  { status with
    state := .awaitingStop
    running := resumes || status.running
    execToken := if resumes then some token else status.execToken }

theorem beginCommand_of_refuses (h : status.Refuses resumes) (token : Token) :
    status.beginCommand token resumes = .error status.refusal := by
  unfold beginCommand attempt refusal
  by_cases hstate : status.state = .terminated
  · rw [if_pos hstate, if_pos hstate]
  · obtain ⟨hresumes, hrunning⟩ := h.resolve_left hstate
    rw [if_neg hstate, if_neg hstate, if_pos hresumes, if_pos hrunning]

theorem beginCommand_of_not_refuses (h : ¬status.Refuses resumes) (token : Token) :
    status.beginCommand token resumes = .ok (status.begun token resumes) := by
  obtain ⟨hstate, hfree⟩ := not_or.mp h
  unfold beginCommand attempt begun
  rw [if_neg hstate]
  cases resumes with
  | false => rfl
  | true =>
    rw [if_pos rfl, if_neg fun hrunning ↦ hfree ⟨rfl, hrunning⟩]
    rfl

/-- To admit a command is to be seen, unless another one is in flight and the target stays as it
is. -/
theorem sameRun_begun_iff (h : ¬status.Refuses resumes) :
    status.SameRun (status.begun token resumes) ↔
      status.state = .awaitingStop ∧ resumes = false := by
  constructor
  · rintro ⟨hstate, hrunning, -⟩
    refine ⟨hstate.symm, ?_⟩
    cases resumes with
    | false => rfl
    | true => exact absurd (.inr ⟨rfl, hrunning.symm⟩) h
  · rintro ⟨hstate, rfl⟩
    exact ⟨hstate.symm, rfl, rfl⟩

end Status

/-! ### Failed submissions -/

namespace Session

variable {s : Session} {command : Command} {handler : Option Handler} {e : SessionError}

/-- Whether the run state and the pending table of a session are the same as before. -/
def Untouched (s s' : Session) : Prop :=
  s.status.SameRun s'.status ∧ s'.pending = s.pending

/-- When a command could not be sent, its token has no handler, neither the one it came with nor one
that was there before. -/
theorem pending_unsent (s : Session) (token : Token) (handler : Option Handler) :
    ((s.registerIfAny token handler).cancel token).pending = (s.pending.take token).2 := by
  have hledger := congrArg Ledger.pending (ledger_cancel (s.registerIfAny token handler) token)
  rw [ledger_registerIfAny] at hledger
  cases handler with
  | none => exact hledger
  | some handler => exact hledger.trans (PendingTable.take_register s.pending token handler)

/-- A submission that the status refuses. -/
theorem submit_of_refuses (h : s.status.Refuses command.resumesTarget) :
    s.submit command handler =
      (.error s.status.refusal, { s with nextToken := s.tokenAfter command }) := by
  have hbegin := Status.beginCommand_of_refuses h (s.tokenFor command)
  rcases submit_cases s command handler with ⟨e, hrefused, heq⟩ | ⟨status, _, hadmitted, -⟩
  · rw [heq, Except.error.inj (hrefused.symm.trans hbegin)]
  · nomatch hadmitted.symm.trans hbegin

/-- A submission that fails although the status admits the command: its line cannot be queued. -/
theorem submit_error_of_not_refuses (h : ¬s.status.Refuses command.resumesTarget)
    (hfailed : (s.submit command handler).1 = .error e) :
    e = .terminated ∧ s.writable = false ∧
      (s.submit command handler).2.status =
        s.status.begun (s.tokenFor command) command.resumesTarget ∧
      (s.submit command handler).2.pending = (s.pending.take (s.tokenFor command)).2 ∧
      (s.submit command handler).2.outbox = s.outbox := by
  have hbegin := Status.beginCommand_of_not_refuses h (s.tokenFor command)
  rcases submit_cases s command handler with
    ⟨e', hrefused, -⟩ | ⟨status, registered, hadmitted, rfl, hqueued⟩
  · nomatch hrefused.symm.trans hbegin
  · obtain rfl := Except.ok.inj (hadmitted.symm.trans hbegin)
    rcases hqueued with ⟨-, heq⟩ | ⟨hclosed, heq⟩
    · rw [heq] at hfailed
      nomatch hfailed
    · rw [heq] at hfailed ⊢
      have htells := (tells_registerIfAny { s with
        nextToken := s.tokenAfter command
        status := s.status.begun (s.tokenFor command) command.resumesTarget }
        (s.tokenFor command) handler).trans (tells_cancel _ (s.tokenFor command))
      exact ⟨(Except.error.inj hfailed).symm, hclosed, htells.status_eq, pending_unsent _ _ _,
        htells.outbox_eq⟩

/-- A submission that fails leaves the run state and the pending table as they are if the status
refuses the command. Otherwise its line could not be queued, and then nothing is to be seen of it
only if another command was in flight, this one does not resume the target, and no earlier handler
stood under its token: the status has admitted the command, which is not undone, and the handlers
of its token are dropped. -/
theorem submit_untouched_iff (h : (s.submit command handler).1 = .error e) :
    (s.Untouched (s.submit command handler).2 ↔
      s.status.Refuses command.resumesTarget ∨
        s.status.state = .awaitingStop ∧ command.resumesTarget = false ∧
          s.pending.get? (s.tokenFor command) = none) ∧
    (s.submit command handler).2.outbox = s.outbox ∧
    (s.status.Refuses command.resumesTarget → e = s.status.refusal) ∧
    (¬s.status.Refuses command.resumesTarget → e = .terminated ∧ s.writable = false ∧
      (s.submit command handler).2.status =
        s.status.begun (s.tokenFor command) command.resumesTarget ∧
      (s.submit command handler).2.pending = (s.pending.take (s.tokenFor command)).2) := by
  by_cases hrefuses : s.status.Refuses command.resumesTarget
  · rw [submit_of_refuses hrefuses] at h ⊢
    have huntouched : s.Untouched { s with nextToken := s.tokenAfter command } :=
      ⟨⟨rfl, rfl, rfl⟩, rfl⟩
    exact ⟨iff_of_true huntouched (.inl hrefuses), rfl, fun _ ↦ (Except.error.inj h).symm,
      fun hadmits ↦ absurd hrefuses hadmits⟩
  · obtain ⟨he, hclosed, hstatus, hpending, houtbox⟩ := submit_error_of_not_refuses hrefuses h
    refine ⟨?_, houtbox, fun h ↦ absurd h hrefuses, fun _ ↦ ⟨he, hclosed, hstatus, hpending⟩⟩
    rw [Untouched, hstatus, hpending, Status.sameRun_begun_iff hrefuses,
      PendingTable.take_eq_self_iff, or_iff_right hrefuses, and_assoc]

/-- A debugger that never answers. -/
def silent : Debugger Unit :=
  ⟨fun _ state ↦ ([], state)⟩

/-- A session whose debugger has stopped reading while a command was in flight. -/
def unplugged : Session :=
  ((World.start SessionOptions.standard () : World Unit Unit).run silent
    [.inputEnds, .begin (.send (.plain "-break-list" [] []))]).session

/-- An execution command that could not be sent leaves the target running for the session, and the
next one is refused for that. A plain command that could not be sent is not to be seen. -/
theorem submit_untouched_iff_of_unplugged :
    (unplugged.submit (.plain "-exec-run" [] []) none).1 = .error .terminated ∧
      ¬unplugged.Untouched (unplugged.submit (.plain "-exec-run" [] []) none).2 ∧
      ((unplugged.submit (.plain "-exec-run" [] []) none).2.submit
        (.plain "-exec-run" [] []) none).1 = .error .busy ∧
      (unplugged.submit (.plain "-break-list" [] []) none).1 = .error .terminated ∧
      unplugged.Untouched (unplugged.submit (.plain "-break-list" [] []) none).2 := by
  have hrun : (unplugged.submit (.plain "-exec-run" [] []) none).1 = .error .terminated := rfl
  have hlist : (unplugged.submit (.plain "-break-list" [] []) none).1 = .error .terminated := rfl
  have hstate : unplugged.status = ⟨.awaitingStop, false, none, none, none⟩ := rfl
  refine ⟨hrun, fun huntouched ↦ ?_, rfl, hlist, (submit_untouched_iff hlist).1.mpr ?_⟩
  · rcases (submit_untouched_iff hrun).1.mp huntouched with hrefuses | ⟨-, hplain, -⟩
    · rw [Status.Refuses, hstate] at hrefuses
      exact absurd hrefuses (by decide)
    · exact absurd hplain (by decide)
  · exact .inr ⟨congrArg Status.state hstate, rfl, rfl⟩

/-- Not every submission that fails leaves the run state as it was. -/
theorem not_always_untouched :
    ¬ ∀ (σ : Type) (debugger : Debugger σ) (options : SessionOptions) (state : σ)
      (happenings : List Happening) (command : Command) (handler : Option Handler)
      (e : SessionError) (s : Session),
      s = ((World.start options state : World σ Unit).run debugger happenings).session →
        (s.submit command handler).1 = .error e → s.Untouched (s.submit command handler).2 := by
  intro h
  obtain ⟨⟨-, hrunning, -⟩, -⟩ := h Unit silent SessionOptions.standard ()
    [.inputEnds, .begin (.send (.plain "-break-list" [] []))] (.plain "-exec-run" [] []) none
    .terminated unplugged rfl rfl
  have hbefore : unplugged.status.running = false := rfl
  have hafter : (unplugged.submit (.plain "-exec-run" [] []) none).2.status.running = true := rfl
  rw [hbefore, hafter] at hrunning
  nomatch hrunning

end Session

end DebugLink
