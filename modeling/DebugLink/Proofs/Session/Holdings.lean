import DebugLink.Proofs.Session.Receiving

/-!
The holdings of a session: its variable objects and its watches. Submitting a command, taking in
records and giving up leave them alone; only operations change them. So between a command and its
answer they stay as they are unless another operation comes in between.
-/

set_option autoImplicit false

namespace DebugLink

/-- What a session holds for those who watch values. -/
structure Holdings where
  options : SessionOptions
  objects : VariableTable
  watches : WatchRegistry
  /-- The number of the next watch. -/
  nextWatch : Nat

namespace Session

/-- The holdings of a session. -/
def holdings (s : Session) : Holdings :=
  ⟨s.options, s.objects, s.watches, s.nextWatch⟩

theorem holdings_eq_iff {s s' : Session} :
    s'.holdings = s.holdings ↔ s'.options = s.options ∧ s'.objects = s.objects ∧
      s'.watches = s.watches ∧ s'.nextWatch = s.nextWatch := by
  simp [holdings]

/-- Whatever is taken in, the holdings stay as they are. -/
theorem holdings_of_takes {s s' : Session} (h : s.Takes s') : s'.holdings = s.holdings := by
  obtain ⟨_, _, _, _, _, _, rfl⟩ := h
  rfl

variable (s : Session)

/-! ### Commands -/

theorem holdings_emit (event : Event) : (s.emit event).holdings = s.holdings :=
  rfl

theorem holdings_submit (command : Command) (handler : Option Handler) :
    (s.submit command handler).2.holdings = s.holdings := by
  obtain ⟨nextToken, status, outbox, -, htells⟩ := tells_submit s command handler
  rw [holdings_of_takes htells.takes]
  rfl

/-! ### Records -/

/-- Whatever the debugger writes, the holdings stay as they are. -/
theorem holdings_receive (record : Record) : (s.receive record).holdings = s.holdings :=
  holdings_of_takes (takes_receive s record)

theorem holdings_receiveLine (line : String) : (s.receiveLine line).holdings = s.holdings := by
  rw [receiveLine_eq]
  cases Record.ofLine? line with
  | none => rfl
  | some record => exact holdings_receive s record

end Session

end DebugLink
