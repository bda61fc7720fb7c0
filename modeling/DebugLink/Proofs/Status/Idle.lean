import DebugLink.Proofs.Status.Run
import Mathlib.Data.List.Induction

/-!
A session that takes input while the target runs. Two calls bring it about (`Status.Call.Strays`): a
`running` record that comes while the session is idle, and a result that ends another command than
the one that set the target running. Along a run the session takes input only while the target does
not run exactly as long as there was no such call (`Status.coherent_iff_not_strays`).
-/

set_option autoImplicit false

namespace DebugLink.Status

variable {status : Status} {call : Call}

/-- A session that takes input has no running target. -/
def Coherent (status : Status) : Prop :=
  status.acceptingInput = true → status.running = false

instance (status : Status) : Decidable status.Coherent :=
  inferInstanceAs (Decidable (_ → _))

/-- Whether a call lets a session take input whose target runs. -/
def Call.Strays (status : Status) : Call → Prop
  | .onAsync cls => cls = "running" ∧ status.state = .idle
  | .onResult token cls =>
    restoresInput cls = true ∧ status.running = true ∧ ¬status.Aborts token cls
  | _ => False

theorem acceptingInput_iff : status.acceptingInput = true ↔ status.state = .idle :=
  decide_eq_true_iff

theorem coherent_of_not_idle (h : status.state ≠ .idle) : status.Coherent := fun haccepting ↦
  absurd (acceptingInput_iff.mp haccepting) h

/-- A record of a running target is coherent with a session that waits, and with no other. -/
theorem coherent_of_running (h : status.running = true) :
    status.Coherent ↔ status.state ≠ .idle := by
  constructor
  · intro hcoherent hidle
    rw [hcoherent (acceptingInput_iff.mpr hidle)] at h
    exact absurd h Bool.false_ne_true
  · exact coherent_of_not_idle

/-- From a coherent status every call that does not stray leads to a coherent one, and a call that
strays does not. -/
theorem Coherent.apply_iff (h : status.Coherent) (hsound : status.Sound) :
    (call.apply status).Coherent ↔ ¬call.Strays status := by
  by_cases hstate : status.state = .terminated
  · have hended : (call.apply status).state = .terminated :=
      (sameRun_of_terminated hstate call).1.trans hstate
    have hidle : RunState.terminated ≠ .idle := by decide
    refine iff_of_true (coherent_of_not_idle (hended ▸ hidle)) fun hstrays ↦ ?_
    cases call with
    | onAsync cls => exact hidle (hstate.symm.trans hstrays.2)
    | onResult token cls => exact hsound.live_of_running hstrays.2.1 hstate
    | _ => exact hstrays
  · cases call with
    | beginCommand token resumes =>
      have hwaits : RunState.awaitingStop ≠ .idle := by decide
      refine iff_of_true ?_ id
      rw [Call.apply]
      by_cases hclosed : resumes = true ∧ status.Closed
      · rw [hclosed.1, attempt_of_closed hclosed.2]
        exact h
      · cases resumes with
        | false =>
          rw [attempt_plain hstate]
          exact coherent_of_not_idle hwaits
        | true =>
          rw [attempt_of_not_closed fun hclosed' ↦ hclosed ⟨rfl, hclosed'⟩]
          exact coherent_of_not_idle hwaits
    | onAsync cls =>
      rw [Call.apply]
      by_cases hrunning : cls = "running"
      · rw [hrunning, onAsync_running hstate, coherent_of_running rfl]
        exact ⟨fun hidle hstrays ↦ hidle hstrays.2, fun hstrays hidle ↦ hstrays ⟨rfl, hidle⟩⟩
      · refine iff_of_true ?_ fun hstrays ↦ hrunning hstrays.1
        by_cases hstopped : cls = "stopped"
        · rw [hstopped, onAsync_stopped hstate]
          exact fun _ ↦ rfl
        · rw [onAsync_other hrunning hstopped]
          exact h
    | onResult token cls =>
      rw [Call.apply, onResult_live hstate]
      by_cases haborts : status.Aborts token cls
      · rw [if_pos haborts, if_pos haborts]
        exact iff_of_true (fun _ ↦ rfl) fun hstrays ↦ hstrays.2.2 haborts
      · rw [if_neg haborts, if_neg haborts]
        by_cases hrestores : restoresInput cls = true
        · rw [if_pos hrestores]
          constructor
          · intro hcoherent hstrays
            exact Bool.false_ne_true ((hcoherent rfl).symm.trans hstrays.2.1)
          · intro hstrays _
            by_cases hrunning : status.running = true
            · exact absurd ⟨hrestores, hrunning, haborts⟩ hstrays
            · exact Bool.eq_false_iff.mpr hrunning
        · rw [if_neg hrestores]
          exact iff_of_true h fun hstrays ↦ hrestores hstrays.1
    | updateThread thread => exact iff_of_true h id
    | setFrame frame => exact iff_of_true h id
    | terminate =>
      rw [terminate_live hstate]
      exact iff_of_true (fun _ ↦ rfl) id

/-- A session takes input only while the target does not run, at every point of a run, if and only
if no call of the run was a `running` record in an idle session or, while the target ran, a result
that ended another command than the one that set it running. -/
theorem coherent_iff_not_strays (calls : List Call) :
    (∀ before, before <+: calls → (after before).Coherent) ↔
      ∀ before call, before ++ [call] <+: calls → ¬call.Strays (after before) := by
  constructor
  · intro hcoherent before call hbefore
    have hnext : (call.apply (after before)).Coherent :=
      after_append_singleton before call ▸ hcoherent _ hbefore
    exact ((hcoherent before ((List.prefix_append before [call]).trans hbefore)).apply_iff
      (sound_after before)).mp hnext
  · intro hstrays before
    -- Induction on the part of the run that has passed, at its end.
    induction before using List.reverseRecOn with
    | nil => exact fun _ _ ↦ rfl
    | append_singleton before call ih =>
      intro hbefore
      rw [after_append_singleton]
      exact ((ih ((List.prefix_append before [call]).trans hbefore)).apply_iff
        (sound_after before)).mpr (hstrays before call hbefore)

/-- The target is set running by one command, and another one is done meanwhile. -/
def answeredWhileRunning : List Call :=
  [.beginCommand 1 true, .onResult (some 1) "running", .beginCommand 2 false,
    .onResult (some 2) "done"]

/-- Both a `running` record in an idle session and the answer of another command while the target
runs lead to a session that takes input although its target runs. -/
theorem not_always_coherent :
    ¬(after [.onAsync "running"]).Coherent ∧ ¬(after answeredWhileRunning).Coherent := by
  decide

end DebugLink.Status
