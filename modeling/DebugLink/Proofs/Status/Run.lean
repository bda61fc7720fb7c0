import DebugLink.Session.Basic
import Mathlib.Tactic.SplitIfs

/-!
Runs of the status of a session: it is told of commands that begin, of records that arrive, and of
the end, in any order (`Status.after`). A command that is refused leaves the status as it is
(`Status.attempt_of_error`), and so does a submission that fails for this reason
(`Session.submit_of_refused`). In every run the
token of an execution command is recorded only while the target runs, and a target runs only in a
session that has not ended (`Status.sound_after`).
-/

set_option autoImplicit false

namespace DebugLink

namespace Status

/-- Something that the status is told. -/
inductive Call
  | beginCommand (token : Token) (resumes : Bool)
  | onAsync (cls : String)
  | onResult (token : Option Token) (cls : String)
  | updateThread (thread : Nat)
  | setFrame (frame : Frame)
  | terminate
  deriving DecidableEq, Repr

/-- The status after a call. -/
def Call.apply (status : Status) : Call → Status
  | beginCommand token resumes => (status.attempt token resumes).2
  | onAsync cls => status.onAsync cls
  | onResult token cls => status.onResult token cls
  | updateThread thread => (status.updateThread thread).2
  | setFrame frame => status.setFrame frame
  | terminate => status.terminate.2

/-- The status of a new session after calls one after another. -/
def after (calls : List Call) : Status :=
  calls.foldl Call.apply initial

variable {status : Status}

theorem after_append_singleton (calls : List Call) (call : Call) :
    after (calls ++ [call]) = call.apply (after calls) := by
  rw [after, List.foldl_append]
  rfl

/-! ### Commands -/

/-- Why a command that resumes the target is refused: the session has ended, or the target is
running. -/
def refusal (status : Status) : SessionError :=
  if status.state = .terminated then .terminated else .busy

/-- Whether a command that resumes the target is refused. -/
def Closed (status : Status) : Prop :=
  status.state = .terminated ∨ status.running = true

instance (status : Status) : Decidable status.Closed :=
  inferInstanceAs (Decidable (_ ∨ _))

/-- A command that is refused leaves the status as it is. -/
theorem attempt_of_error {token : Token} {resumes : Bool} {e : SessionError}
    (h : (status.attempt token resumes).1 = .error e) :
    (status.attempt token resumes).2 = status := by
  unfold attempt at h ⊢
  split_ifs at h ⊢ <;> rfl

/-- The status after an attempt is the one in which the command is written, if it is written. -/
theorem attempt_eq (status : Status) (token : Token) (resumes : Bool) :
    status.attempt token resumes = match status.beginCommand token resumes with
      | .ok begun => (.ok (), begun)
      | .error e => (.error e, status) := by
  unfold beginCommand
  rcases hattempt : status.attempt token resumes with ⟨e | ⟨⟩, begun⟩
  · have hkept := attempt_of_error (congrArg Prod.fst hattempt)
    rw [hattempt] at hkept
    obtain rfl : begun = status := hkept
    rfl
  · rfl

theorem attempt_of_closed (h : status.Closed) (token : Token) :
    status.attempt token true = (.error status.refusal, status) := by
  unfold attempt refusal
  by_cases hstate : status.state = .terminated
  · rw [if_pos hstate, if_pos hstate]
  · rw [if_neg hstate, if_neg hstate, if_pos rfl, if_pos (h.resolve_left hstate)]

theorem attempt_of_not_closed (h : ¬status.Closed) (token : Token) :
    status.attempt token true = (.ok (), { status with
      state := .awaitingStop, running := true, execToken := some token }) := by
  obtain ⟨hstate, hrunning⟩ := not_or.mp h
  unfold attempt
  rw [if_neg hstate, if_pos rfl, if_neg hrunning]

theorem attempt_plain (h : status.state ≠ .terminated) (token : Token) :
    status.attempt token false = (.ok (), { status with state := .awaitingStop }) := by
  unfold attempt
  rw [if_neg h, if_neg Bool.false_ne_true]

/-- After a command has begun the session waits. -/
theorem state_of_beginCommand {status' : Status} {token : Token} {resumes : Bool}
    (h : status.beginCommand token resumes = .ok status') : status'.state = .awaitingStop := by
  unfold beginCommand attempt at h
  split_ifs at h
  all_goals
    obtain rfl := Except.ok.inj h
    rfl

/-! ### Records -/

/-- Whether a result says that the execution command whose token is recorded did not set the target
running, or that it has ended. -/
def Aborts (status : Status) (token : Option Token) (cls : String) : Prop :=
  (token.isSome ∧ token = status.execToken) ∧ cls ≠ "running"

instance (status : Status) (token : Option Token) (cls : String) :
    Decidable (status.Aborts token cls) :=
  inferInstanceAs (Decidable (_ ∧ _))

theorem onAsync_running (h : status.state ≠ .terminated) :
    status.onAsync "running" = { status with running := true } := by
  unfold onAsync
  rw [if_neg h, if_pos rfl]

theorem onAsync_stopped (h : status.state ≠ .terminated) :
    status.onAsync "stopped" =
      { status with state := .idle, running := false, execToken := none } := by
  unfold onAsync
  rw [if_neg h, if_neg (by decide), if_pos rfl]

theorem onAsync_other {cls : String} (hrunning : cls ≠ "running") (hstopped : cls ≠ "stopped") :
    status.onAsync cls = status := by
  unfold onAsync
  rw [if_neg hrunning, if_neg hstopped, ite_self]

theorem onResult_live (h : status.state ≠ .terminated) (token : Option Token) (cls : String) :
    status.onResult token cls = { status with
      state := if restoresInput cls then .idle else status.state
      running := if status.Aborts token cls then false else status.running
      execToken := if status.Aborts token cls then none else status.execToken } := by
  have hcondition : (token.isSome && decide (token = status.execToken) &&
      decide (cls ≠ "running")) = true ↔ status.Aborts token cls := by
    simp [Aborts]
  unfold onResult
  rw [if_neg h]
  by_cases hrestores : restoresInput cls = true
  · rw [if_pos hrestores, if_pos hrestores]
    by_cases haborts : status.Aborts token cls
    · rw [if_pos haborts, if_pos haborts]
      exact if_pos (hcondition.mpr haborts)
    · rw [if_neg haborts, if_neg haborts]
      exact if_neg fun htrue ↦ haborts (hcondition.mp htrue)
  · rw [if_neg hrestores, if_neg hrestores]
    by_cases haborts : status.Aborts token cls
    · rw [if_pos haborts, if_pos haborts]
      exact if_pos (hcondition.mpr haborts)
    · rw [if_neg haborts, if_neg haborts]
      exact if_neg fun htrue ↦ haborts (hcondition.mp htrue)

/-! ### The end -/

/-- Whether two statuses differ at most in the current thread and frame. -/
def SameRun (status status' : Status) : Prop :=
  status'.state = status.state ∧ status'.running = status.running ∧
    status'.execToken = status.execToken

/-- After the end nothing but the current thread and frame changes. -/
theorem sameRun_of_terminated (h : status.state = .terminated) (call : Call) :
    status.SameRun (call.apply status) := by
  cases call with
  | beginCommand token resumes =>
    have hrefused : status.attempt token resumes = (.error .terminated, status) := by
      unfold attempt
      rw [if_pos h]
    rw [Call.apply, hrefused]
    exact ⟨rfl, rfl, rfl⟩
  | onAsync cls =>
    rw [Call.apply, Status.onAsync, if_pos h]
    exact ⟨rfl, rfl, rfl⟩
  | onResult token cls =>
    rw [Call.apply, Status.onResult, if_pos h]
    exact ⟨rfl, rfl, rfl⟩
  | updateThread thread => exact ⟨rfl, rfl, rfl⟩
  | setFrame frame => exact ⟨rfl, rfl, rfl⟩
  | terminate =>
    rw [Call.apply, Status.terminate, if_pos h]
    exact ⟨rfl, rfl, rfl⟩

theorem terminate_live (h : status.state ≠ .terminated) :
    Call.terminate.apply status =
      { status with state := .terminated, running := false, execToken := none } := by
  rw [Call.apply, Status.terminate, if_neg h]

/-- Only the end ends a session. -/
theorem terminated_apply_iff (call : Call) :
    (call.apply status).state = .terminated ↔ status.state = .terminated ∨ call = .terminate := by
  by_cases hstate : status.state = .terminated
  · exact iff_of_true ((sameRun_of_terminated hstate call).1.trans hstate) (.inl hstate)
  · rw [or_iff_right hstate]
    cases call with
    | beginCommand token resumes =>
      refine iff_of_false ?_ nofun
      cases resumes with
      | false =>
        rw [Call.apply, attempt_plain hstate]
        nofun
      | true =>
        rw [Call.apply]
        by_cases hclosed : status.Closed
        · rwa [attempt_of_closed hclosed]
        · rw [attempt_of_not_closed hclosed]
          nofun
    | onAsync cls =>
      refine iff_of_false ?_ nofun
      rw [Call.apply, Status.onAsync, if_neg hstate]
      split_ifs
      · exact hstate
      · nofun
      · exact hstate
    | onResult token cls =>
      refine iff_of_false ?_ nofun
      rw [Call.apply, onResult_live hstate]
      dsimp only
      split_ifs
      · nofun
      · exact hstate
    | updateThread thread => exact iff_of_false hstate nofun
    | setFrame frame => exact iff_of_false hstate nofun
    | terminate =>
      rw [terminate_live hstate]
      exact iff_of_true rfl rfl

theorem terminated_foldl_iff (calls : List Call) :
    (calls.foldl Call.apply status).state = .terminated ↔
      status.state = .terminated ∨ .terminate ∈ calls := by
  induction calls generalizing status with
  | nil => simp
  | cons call rest ih =>
    rw [List.foldl_cons, ih, terminated_apply_iff, List.mem_cons, or_assoc, @eq_comm _ call]

/-! ### The target -/

/-- The token of an execution command is recorded only while the target runs, and the target runs
only in a session that has not ended. -/
structure Sound (status : Status) : Prop where
  running_of_token : ∀ token, status.execToken = some token → status.running = true
  live_of_running : status.running = true → status.state ≠ .terminated

theorem Sound.apply (h : status.Sound) (call : Call) : (call.apply status).Sound := by
  by_cases hstate : status.state = .terminated
  · obtain ⟨hsame, hrunning, htoken⟩ := sameRun_of_terminated hstate call
    exact ⟨htoken ▸ hrunning ▸ h.running_of_token, hrunning ▸ hsame ▸ h.live_of_running⟩
  · cases call with
    | beginCommand token resumes =>
      cases resumes with
      | false =>
        rw [Call.apply, attempt_plain hstate]
        exact ⟨h.running_of_token, fun _ ↦ nofun⟩
      | true =>
        rw [Call.apply]
        by_cases hclosed : status.Closed
        · rw [attempt_of_closed hclosed]
          exact h
        · rw [attempt_of_not_closed hclosed]
          exact ⟨fun _ _ ↦ rfl, fun _ ↦ nofun⟩
    | onAsync cls =>
      rw [Call.apply]
      by_cases hrunning : cls = "running"
      · rw [hrunning, onAsync_running hstate]
        exact ⟨fun _ _ ↦ rfl, fun _ ↦ hstate⟩
      · by_cases hstopped : cls = "stopped"
        · rw [hstopped, onAsync_stopped hstate]
          exact ⟨nofun, nofun⟩
        · rw [onAsync_other hrunning hstopped]
          exact h
    | onResult token cls =>
      rw [Call.apply, onResult_live hstate]
      by_cases haborts : status.Aborts token cls
      · rw [if_pos haborts, if_pos haborts]
        exact ⟨nofun, nofun⟩
      · rw [if_neg haborts, if_neg haborts]
        refine ⟨h.running_of_token, fun _ ↦ ?_⟩
        dsimp only
        split_ifs
        · exact nofun
        · exact hstate
    | updateThread thread => exact ⟨h.running_of_token, h.live_of_running⟩
    | setFrame frame => exact ⟨h.running_of_token, h.live_of_running⟩
    | terminate =>
      rw [terminate_live hstate]
      exact ⟨nofun, nofun⟩

theorem sound_after (calls : List Call) : (after calls).Sound :=
  List.foldlRecOn calls Call.apply ⟨nofun, nofun⟩ fun _ h call _ ↦ h.apply call

end Status

/-! ### Submissions -/

namespace Session

/-- To admit a command changes the status only. -/
theorem allow_eq (s : Session) (token : Token) (command : Command) :
    s.allow token command = match s.status.beginCommand token command.resumesTarget with
      | .ok status => (.ok (), { s with status })
      | .error e => (.error e, s) := by
  unfold allow
  rw [Status.attempt_eq]
  cases s.status.beginCommand token command.resumesTarget <;> rfl

/-- A submission that the status refuses fails and leaves the status as it is. -/
theorem submit_of_refused {s : Session} {command : Command} {e : SessionError}
    (h : s.status.attempt (s.allocate command).1 command.resumesTarget = (.error e, s.status))
    (handler : Option Handler) :
    (s.submit command handler).1 = .error e ∧ (s.submit command handler).2.status = s.status := by
  have hstatus : (s.allocate command).2.status = s.status := by
    unfold allocate
    split <;> rfl
  unfold submit allow
  dsimp only
  rw [hstatus, h]
  exact ⟨rfl, rfl⟩

end Session

end DebugLink
