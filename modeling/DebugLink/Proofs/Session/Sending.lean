import DebugLink.Proofs.Command.Framing
import DebugLink.Proofs.Session.Ledger
import DebugLink.Proofs.Session.Telling

/-!
What a submission puts on the wire. Each command that is admitted is written as one text, and its
handler waits under its token. Whether the debugger takes that text for one line with that token
depends on the operation (`submit_framed_iff`), and so, where the operation is a text that the user
typed, on what that text contains and begins with.
-/

set_option autoImplicit false

namespace DebugLink.Session

open Command

variable {s : Session} {command : Command} {handler : Option Handler} {token : Token}

theorem get?_registerIfAny (s : Session) (token : Token) (handler : Handler) :
    (s.registerIfAny token (some handler)).pending.get? token = some handler := by
  have hpending : (s.registerIfAny token (some handler)).pending =
      (s.pending.register token handler).2 :=
    congrArg Ledger.pending (ledger_registerIfAny s token (some handler))
  rw [hpending, PendingTable.get?_register, if_pos rfl]

/-- A command that is sent adds one text to what is written, and waits under its token. -/
theorem submit_ok (h : (s.submit command handler).1 = .ok token) :
    (s.submit command handler).2.outbox = s.outbox ++ [command.render token] ∧
      ∀ found, handler = some found →
        (s.submit command handler).2.pending.get? token = some found := by
  rcases submit_cases s command handler with
    ⟨e, -, heq⟩ | ⟨status, registered, -, rfl, ⟨-, heq⟩ | ⟨-, heq⟩⟩
  · rw [heq] at h
    nomatch h
  · rw [heq] at h ⊢
    obtain rfl : s.tokenFor command = token := Except.ok.inj h
    refine ⟨rfl, ?_⟩
    rintro found rfl
    exact get?_registerIfAny _ _ found
  · rw [heq] at h
    nomatch h

/-- A command that is sent adds one text to what is written. It is one line, beginning with the
token and no other digits, if and only if the operation has no line feed and does not begin with a
digit. If the operation begins otherwise than with a digit, the digits that the debugger reads are
the token under which the handler waits. If it begins with one, they are another number, except that
zero may be read as zero. -/
theorem submit_framed_iff (h : (s.submit command handler).1 = .ok token) :
    (s.submit command handler).2.outbox = s.outbox ++ [command.render token] ∧
    (command.Framed token ↔
      '\n' ∉ command.operation.toList ∧ EndsToken command.operation.toList) ∧
    (EndsToken command.operation.toList →
      echo? (command.render token).toList = some token ∧
        ∀ found, handler = some found →
          (s.submit command handler).2.pending.get? token = some found) ∧
    (¬EndsToken command.operation.toList → token ≠ 0 →
      echo? (command.render token).toList ≠ some token) := by
  obtain ⟨houtbox, hpending⟩ := submit_ok h
  exact ⟨houtbox, framed_iff command token, fun hends ↦ ⟨echo?_of_endsToken hends, hpending⟩,
    echo?_ne_of_not_endsToken⟩

/-- A new session. -/
def fresh : Session :=
  .start .standard

/-- A text that the user typed with a token of its own is answered under another token than the one
that its sender waits for. -/
theorem submit_framed_iff_of_typed :
    (fresh.submit (raw " info registers\n") (some (.waiter 0))).1 = .ok 1000001 ∧
      (raw " info registers\n").Framed 1000001 ∧
      (fresh.submit (raw "2-break-list") (some (.waiter 0))).1 = .ok 1000001 ∧
      ¬(raw "2-break-list").Framed 1000001 ∧
      echo? ((raw "2-break-list").render 1000001).toList ≠ some 1000001 := by
  have hplain : (fresh.submit (raw " info registers\n") (some (.waiter 0))).1 = .ok 1000001 := rfl
  have hnumbered : (fresh.submit (raw "2-break-list") (some (.waiter 0))).1 = .ok 1000001 := rfl
  obtain ⟨-, hplain_iff, -, -⟩ := submit_framed_iff hplain
  obtain ⟨-, hnumbered_iff, -, hother⟩ := submit_framed_iff hnumbered
  have hdigit : ¬EndsToken (raw "2-break-list").operation.toList :=
    fun hends ↦ absurd (hends '2' rfl) (by decide)
  refine ⟨hplain, hplain_iff.mpr ⟨by decide, ?_⟩, hnumbered,
    fun hframed ↦ hdigit (hnumbered_iff.mp hframed).2, hother hdigit (by decide)⟩
  rintro c hc
  rw [← Option.some.inj (show some 'i' = some c from hc)]
  rfl

/-- Not every text that a user types is sent as one line, and not every one that is sent as one line
is sent with the token that its sender waits for. -/
theorem not_always_framed :
    (¬ ∀ (s : Session) (text : String) (token : Token),
      (s.submit (raw text) none).1 = .ok token → '\n' ∉ ((raw text).render token).toList) ∧
    ¬ ∀ (s : Session) (text : String) (token : Token),
      (s.submit (raw text) none).1 = .ok token → '\n' ∉ text.toList →
        leadingDigits ((raw text).render token).toList = (toString token.toNat).toList := by
  refine ⟨fun h ↦ ?_, fun h ↦ ?_⟩
  · exact h fresh "run\nlist" 1000001 rfl (by decide)
  · exact absurd (h fresh "2-break-list" 1000001 rfl (by decide)) (by decide)

end DebugLink.Session
