import DebugLink.Proofs.Status.Run
import Mathlib.Tactic.ByContra

/-!
Commands that resume the target do not come between one another. Once such a command was accepted
the session stays occupied by it (`Status.Occupied`) until the target stops or a result of that
command other than `running` arrives, whatever else the status is told
(`Status.Occupied.foldl`); and an occupied session refuses every command that resumes the target
(`Status.resumptions_apart`).
-/

set_option autoImplicit false

namespace DebugLink.Status

variable {status : Status} {first : Token} {call : Call}

/-- Whether a call ends what the execution command of a token began: the target stops, or the
command has a result other than `running`. -/
def Call.Releases (first : Token) : Call → Prop
  | .onAsync cls => cls = "stopped"
  | .onResult token cls => token = some first ∧ cls ≠ "running"
  | _ => False

/-- Either the session has ended, or the target runs and the execution command of a token is the one
that set it running. -/
def Occupied (first : Token) (status : Status) : Prop :=
  status.state = .terminated ∨ (status.running = true ∧ status.execToken = some first)

theorem Occupied.closed (h : status.Occupied first) : status.Closed :=
  h.imp_right And.left

/-- A session stays occupied until it is released. -/
theorem Occupied.apply (h : status.Occupied first) (hcall : ¬call.Releases first) :
    (call.apply status).Occupied first := by
  by_cases hstate : status.state = .terminated
  · exact .inl ((sameRun_of_terminated hstate call).1.trans hstate)
  · obtain ⟨hrunning, htoken⟩ := h.resolve_left hstate
    cases call with
    | beginCommand token resumes =>
      cases resumes with
      | false =>
        rw [Call.apply, attempt_plain hstate]
        exact .inr ⟨hrunning, htoken⟩
      | true =>
        rw [Call.apply, attempt_of_closed h.closed]
        exact h
    | onAsync cls =>
      rw [Call.apply]
      by_cases hcls : cls = "running"
      · rw [hcls, onAsync_running hstate]
        exact .inr ⟨rfl, htoken⟩
      · rw [onAsync_other hcls hcall]
        exact h
    | onResult token cls =>
      -- A result that aborts the command is one of its own.
      have haborts : ¬status.Aborts token cls := fun haborts ↦
        hcall ⟨haborts.1.2.trans htoken, haborts.2⟩
      rw [Call.apply, onResult_live hstate, if_neg haborts, if_neg haborts]
      exact .inr ⟨hrunning, htoken⟩
    | updateThread thread => exact h
    | setFrame frame => exact h
    | terminate =>
      rw [terminate_live hstate]
      exact .inl rfl

theorem Occupied.foldl (h : status.Occupied first) {calls : List Call}
    (hcalls : ∀ call ∈ calls, ¬call.Releases first) :
    (calls.foldl Call.apply status).Occupied first :=
  List.foldlRecOn calls Call.apply h fun _ hoccupied call hmem ↦
    hoccupied.apply (hcalls call hmem)

/-- An accepted command that resumes the target occupies the session. -/
theorem occupied_of_accepted (h : (status.attempt first true).1 = .ok ()) :
    (Call.apply status (.beginCommand first true)).Occupied first := by
  by_cases hclosed : status.Closed
  · rw [attempt_of_closed hclosed] at h
    nomatch h
  · rw [Call.apply, attempt_of_not_closed hclosed]
    exact .inr ⟨rfl, rfl⟩

theorem occupied_after {before between : List Call}
    (h : ((after before).attempt first true).1 = .ok ())
    (hbetween : ∀ call ∈ between, ¬call.Releases first) :
    (after (before ++ .beginCommand first true :: between)).Occupied first := by
  rw [after, List.foldl_append, List.foldl_cons]
  exact (occupied_of_accepted h).foldl hbetween

/-- Between two accepted commands that resume the target there is a stop, or a result of the first
one other than `running`. A command that resumes the target and is not accepted is refused because
the session has ended or the target is running, and leaves the status as it is; in particular every
one that is submitted before such a stop or result. While the token of an execution command is
recorded the target runs. -/
theorem resumptions_apart (calls : List Call) :
    (∀ token, (after calls).execToken = some token → (after calls).running = true) ∧
    (∀ second, ((after calls).attempt second true).1 = .ok () ∨
      (after calls).attempt second true = (.error (after calls).refusal, after calls)) ∧
    ∀ before first between, calls = before ++ .beginCommand first true :: between →
      ((after before).attempt first true).1 = .ok () →
        (∀ second, ((after calls).attempt second true).1 = .ok () →
          ∃ call ∈ between, call.Releases first) ∧
        ((∀ call ∈ between, ¬call.Releases first) →
          ∀ (s : Session) (command : Command) (handler : Option Handler),
            s.status = after calls → command.resumesTarget = true →
              (s.submit command handler).1 = .error s.status.refusal ∧
                (s.submit command handler).2.status = s.status) := by
  refine ⟨(sound_after calls).running_of_token, fun second ↦ ?_, ?_⟩
  · by_cases hclosed : (after calls).Closed
    · exact .inr (attempt_of_closed hclosed second)
    · rw [attempt_of_not_closed hclosed]
      exact .inl rfl
  · rintro before first between rfl haccepted
    constructor
    · intro second hsecond
      by_contra hnone
      have hquiet : ∀ call ∈ between, ¬call.Releases first := fun call hcall hreleases ↦
        hnone ⟨call, hcall, hreleases⟩
      rw [attempt_of_closed (occupied_after haccepted hquiet).closed] at hsecond
      nomatch hsecond
    · intro hquiet s command handler hstatus hresumes
      have hclosed : s.status.Closed := by
        rw [hstatus]
        exact (occupied_after haccepted hquiet).closed
      exact Session.submit_of_refused (hresumes ▸ attempt_of_closed hclosed _) handler

/-- The target is resumed, another command is answered meanwhile, and the target stops. -/
def resumedOnce : List Call :=
  [.beginCommand 1 true, .onResult (some 1) "running", .beginCommand 2 false,
    .onResult (some 2) "done", .beginCommand 3 true, .onAsync "stopped"]

theorem resumptions_apart_of_stop :
    ((after []).attempt 1 true).1 = .ok () ∧ ((after resumedOnce).attempt 4 true).1 = .ok () ∧
      ∃ call ∈ resumedOnce.tail, call.Releases 1 := by
  have hfirst : ((after []).attempt 1 true).1 = .ok () := rfl
  have hopen : ¬(after resumedOnce).Closed := by decide
  have hsecond : ((after resumedOnce).attempt 4 true).1 = .ok () := by
    rw [attempt_of_not_closed hopen]
  obtain ⟨-, -, hapart⟩ := resumptions_apart resumedOnce
  exact ⟨hfirst, hsecond, (hapart [] 1 resumedOnce.tail rfl hfirst).1 4 hsecond⟩

end DebugLink.Status
