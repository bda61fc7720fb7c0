import DebugLink.Proofs.Session.Receiving

/-!
What a line of output can make a session publish. A record brings about events about itself, the
program and the breakpoints, but none about variable objects and watches, and none that says that
the session has ended; all of them come behind the events that are there
(`Session.reports_receive`).
-/

set_option autoImplicit false

namespace DebugLink

/-- Whether an event is one that a record can bring about. -/
def Event.OfRecord : Event → Prop
  | fileChanged _ | watchUpdated _ | rootUpdated _ | watchDecoded _ _ | sessionEnded _ => False
  | error _ _ | breakpointSet _ | breakpointDeleted _ | threadSwitched _ | frameChanged _
  | processed | consoleOutput _ | targetOutput _ => True

namespace Session

variable {s s₁ s' : Session}

/-- Whether a session has published no more than what records bring about. -/
def Reports (s s' : Session) : Prop :=
  ∃ news, s'.events = s.events ++ news ∧ ∀ event ∈ news, event.OfRecord

namespace Reports

theorem of_eq (h : s'.events = s.events) : s.Reports s' :=
  ⟨[], by rw [h, List.append_nil], List.forall_mem_nil _⟩

theorem refl (s : Session) : s.Reports s :=
  of_eq rfl

theorem trans (h : s.Reports s₁) (h' : s₁.Reports s') : s.Reports s' := by
  obtain ⟨news, hevents, hnews⟩ := h
  obtain ⟨later, hevents', hlater⟩ := h'
  refine ⟨news ++ later, by rw [hevents', hevents, List.append_assoc], fun event hevent ↦ ?_⟩
  exact (List.mem_append.mp hevent).elim (hnews event) (hlater event)

theorem emit (h : s.Reports s') {event : Event} (hrecord : event.OfRecord) :
    s.Reports (s'.emit event) :=
  h.trans ⟨[event], rfl, fun _ hmem ↦ List.mem_singleton.mp hmem ▸ hrecord⟩

/-- What a session has published that is not of the kind that records bring about. -/
theorem filterMap_events {α : Type} (h : s.Reports s') {f : Event → Option α}
    (hf : ∀ event, event.OfRecord → f event = none) :
    s'.events.filterMap f = s.events.filterMap f := by
  obtain ⟨news, hevents, hnews⟩ := h
  have hnone : news.filterMap f = [] :=
    List.filterMap_eq_nil_iff.mpr fun event hevent ↦ hf event (hnews event hevent)
  rw [hevents, List.filterMap_append, hnone, List.append_nil]

end Reports

theorem Tells.reports (h : s.Tells s') : s.Reports s' := by
  obtain ⟨_, _, _, rfl⟩ := h
  exact .of_eq rfl

/-! ### Thread, frame and breakpoints -/

theorem reports_switchThread (s : Session) (thread : Nat) : s.Reports (s.switchThread thread) := by
  unfold switchThread
  dsimp only
  split
  · exact (Reports.of_eq rfl).emit trivial
  · exact .of_eq rfl

theorem reports_thread? (s : Session) (found : Option Nat) :
    s.Reports (match found with | some thread => s.switchThread thread | none => s) := by
  cases found with
  | none => exact .refl s
  | some thread => exact reports_switchThread s thread

theorem reports_frame? (s : Session) (found : Option Frame) :
    s.Reports (match found with | some frame => s.changeFrame frame | none => s) := by
  cases found with
  | none => exact .refl s
  | some frame => exact (Reports.of_eq rfl).emit trivial

theorem reports_applyContext (s : Session) (fields : Fields) :
    s.Reports (s.applyContext fields) :=
  (reports_thread? s (fields.text? "thread-id" >>= Numeral.word32?)).trans (reports_frame? _ _)

theorem reports_upsertBreakpoint (s : Session) (fields : Fields) :
    s.Reports (s.upsertBreakpoint fields) := by
  unfold upsertBreakpoint
  split
  · exact (Reports.of_eq rfl).emit trivial
  · exact .refl s

theorem reports_forgetBreakpoint (s : Session) (number : Nat) :
    s.Reports (s.forgetBreakpoint number) := by
  unfold forgetBreakpoint
  split
  · exact (Reports.of_eq rfl).emit trivial
  · exact .refl s

/-! ### Records -/

theorem reports_applyNotice (s : Session) (cls : String) (fields : Fields) :
    s.Reports (s.applyNotice cls fields) := by
  unfold applyNotice
  split_ifs
  · split
    · exact reports_upsertBreakpoint s _
    · exact .refl s
  · split
    · exact reports_forgetBreakpoint s _
    · exact .refl s
  · exact (reports_thread? s _).trans (reports_applyContext _ fields)
  · exact .refl s

theorem reports_applyResult (s : Session) (cls : String) (fields : Fields) :
    s.Reports (s.applyResult cls fields) := by
  unfold applyResult
  split
  · split
    · exact reports_upsertBreakpoint s _
    · exact .refl s
  · exact .refl s

theorem reports_respond (s : Session) (token : Option Token) (cls : String) (fields : Fields) :
    s.Reports (s.respond token cls fields) :=
  (tells_respond s token cls fields).reports

theorem reports_scheduleIfStopped (s : Session) (cls : String) :
    s.Reports (s.scheduleIfStopped cls) :=
  (tells_scheduleIfStopped s cls).reports

/-- Whatever record comes, a session publishes what records bring about and nothing else. -/
theorem reports_receive (s : Session) (record : Record) : s.Reports (s.receive record) := by
  cases record with
  | stream channel text =>
    cases channel with
    | console | target => exact (Reports.refl s).emit trivial
    | log => exact .refl s
  | async notice token cls fields =>
    cases notice with
    | exec =>
      have hstatus : s.Reports { s with status := s.status.onAsync cls } := .of_eq rfl
      exact (((hstatus.trans (reports_applyContext _ fields)).trans
        (reports_respond _ token cls fields)).trans (reports_scheduleIfStopped _ cls)).emit trivial
    | notify =>
      exact ((reports_applyNotice s cls fields).trans (reports_respond _ token cls fields)).emit
        trivial
    | status => exact (reports_respond s token cls fields).emit trivial
  | result token cls fields =>
    unfold receive
    dsimp only
    split_ifs
    · have hstatus : s.Reports { s with status := s.status.onResult token "error" } := .of_eq rfl
      refine (hstatus.trans ?_).emit trivial
      -- Whoever waits is told of the error, if the record has a token.
      cases token with
      | none => exact .refl _
      | some token => exact (tells_answer _ token _).reports
    · have hstatus : s.Reports { s with status := s.status.onResult token cls } := .of_eq rfl
      exact ((((hstatus.trans (reports_applyContext _ fields)).trans
        (reports_applyResult _ cls fields)).trans (reports_respond _ token cls fields)).trans
          (reports_scheduleIfStopped _ cls)).emit trivial
  | prompt => exact .refl s

/-- A line of output is passed over, or its record is taken in. -/
theorem receiveLine_cases (s : Session) (line : String) :
    s.receiveLine line = s ∨ ∃ record, s.receiveLine line = s.receive record := by
  rw [receiveLine_eq]
  cases Record.ofLine? line with
  | none => exact .inl rfl
  | some record => exact .inr ⟨record, rfl⟩

end Session

end DebugLink
