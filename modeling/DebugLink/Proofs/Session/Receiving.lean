import DebugLink.Proofs.Session.Telling
import DebugLink.Proofs.Status.Run

/-!
What a record can change about a session: the status, the breakpoints and the handlers, and what is
published; everything else stays as it is (`Session.takes_receive`). To the status a record is a
list of calls (`Record.calls`), and the status afterwards is the one that they lead to
(`Session.status_receive`). A line of output is as good as the record that it holds, and a line that
holds none is as good as none (`Session.receiveLine_eq`).
-/

set_option autoImplicit false

namespace DebugLink

/-- The record that a line of output holds, if it holds one. What ends the line does not belong to
it, and a blank line holds none. -/
def Record.ofLine? (line : String) : Option Record :=
  let line := String.ofList (Text.dropEndWhile (fun c ↦ c = '\r' || c = '\n') line.toList)
  if Text.isBlank line then none else (Record.parse line).toOption

/-! ### Calls to the status -/

/-- The calls that the thread and the frame among the fields of a record make. -/
def Fields.contextCalls (fields : Fields) : List Status.Call :=
  (fields.text? "thread-id" >>= Numeral.word32?).toList.map .updateThread ++
    (fields.tuple? "frame" >>= Frame.ofFields?).toList.map .setFrame

/-- The calls that a notification makes. -/
def Fields.noticeCalls (fields : Fields) (cls : String) : List Status.Call :=
  if cls = "thread-selected" then
    (fields.text? "id" >>= Numeral.word32?).toList.map .updateThread ++ fields.contextCalls
  else []

/-- The calls that a record makes to the status, the first one first. -/
def Record.calls : Record → List Status.Call
  | .async .exec _ cls fields => .onAsync cls :: fields.contextCalls
  | .async .notify _ cls fields => fields.noticeCalls cls
  | .result token cls fields =>
    if cls = "error" then [.onResult token "error"] else .onResult token cls :: fields.contextCalls
  | .async .status _ _ _ | .stream _ _ | .prompt => []

/-- The fields of a record do not end a session. -/
theorem Fields.terminate_notMem_contextCalls (fields : Fields) :
    .terminate ∉ fields.contextCalls := by
  simp [contextCalls]

/-- No record ends a session. -/
theorem Record.terminate_notMem_calls (record : Record) : .terminate ∉ record.calls := by
  unfold calls
  split
  · simp [Fields.terminate_notMem_contextCalls]
  · unfold Fields.noticeCalls
    split_ifs <;> simp [Fields.terminate_notMem_contextCalls]
  · split_ifs <;> simp [Fields.terminate_notMem_contextCalls]
  all_goals exact List.not_mem_nil

namespace Session

variable {s s₁ s' : Session}

/-- Whether a session has done no more than to take something in: at most its status, its
breakpoints, its handlers and what it has published are others than before. -/
def Takes (s s' : Session) : Prop :=
  ∃ status breakpoints pending events signals calls,
    s' = { s with status, breakpoints, pending, events, signals, calls }

namespace Takes

/-- To do nothing is to take something in. -/
theorem refl (s : Session) : s.Takes s :=
  ⟨s.status, s.breakpoints, s.pending, s.events, s.signals, s.calls, rfl⟩

/-- What is taken in twice is taken in. -/
theorem trans (h : s.Takes s₁) (h' : s₁.Takes s') : s.Takes s' := by
  obtain ⟨_, _, _, _, _, _, rfl⟩ := h
  obtain ⟨status, breakpoints, pending, events, signals, calls, rfl⟩ := h'
  exact ⟨status, breakpoints, pending, events, signals, calls, rfl⟩

/-- Taking something in does not close the input of the debugger. -/
theorem writable_eq (h : s.Takes s') : s'.writable = s.writable := by
  obtain ⟨_, _, _, _, _, _, rfl⟩ := h
  rfl

/-- Taking something in gives out no token. -/
theorem nextToken_eq (h : s.Takes s') : s'.nextToken = s.nextToken := by
  obtain ⟨_, _, _, _, _, _, rfl⟩ := h
  rfl

/-- Publishing an event is part of taking something in. -/
theorem emit (h : s.Takes s') (event : Event) : s.Takes (s'.emit event) :=
  h.trans ⟨s'.status, s'.breakpoints, s'.pending, _, s'.signals, s'.calls, rfl⟩

end Takes

/-- Telling is part of taking something in. -/
theorem Tells.takes (h : s.Tells s') : s.Takes s' := by
  obtain ⟨pending, signals, calls, rfl⟩ := h
  exact ⟨s.status, s.breakpoints, pending, s.events, signals, calls, rfl⟩

/-- Whether a session has taken something in that makes some calls to its status. -/
def TakesBy (calls : List Status.Call) (s s' : Session) : Prop :=
  s.Takes s' ∧ s'.status = calls.foldl Status.Call.apply s.status

/-- The calls of two steps are made one after the other. -/
theorem TakesBy.trans {calls calls' : List Status.Call} (h : TakesBy calls s s₁)
    (h' : TakesBy calls' s₁ s') : TakesBy (calls ++ calls') s s' :=
  ⟨h.1.trans h'.1, by rw [h'.2, h.2, List.foldl_append]⟩

/-- A step without calls adds none. -/
theorem TakesBy.quiet {calls : List Status.Call} (h : TakesBy calls s s₁)
    (h' : TakesBy [] s₁ s') : TakesBy calls s s' :=
  List.append_nil calls ▸ h.trans h'

/-- To do nothing makes no call. -/
theorem takesBy_refl (s : Session) : TakesBy [] s s :=
  ⟨.refl s, rfl⟩

/-- Telling makes no call to the status. -/
theorem Tells.takesBy (h : s.Tells s') : TakesBy [] s s' :=
  ⟨h.takes, h.status_eq⟩

/-- Publishing makes no call to the status. -/
theorem takesBy_emit (s : Session) (event : Event) : TakesBy [] s (s.emit event) :=
  ⟨(Takes.refl s).emit event, rfl⟩

/-- A call to the status makes that call. -/
theorem takesBy_call (s : Session) (call : Status.Call) :
    TakesBy [call] s { s with status := call.apply s.status } :=
  ⟨⟨_, s.breakpoints, s.pending, s.events, s.signals, s.calls, rfl⟩, rfl⟩

/-! ### Thread, frame and breakpoints -/

/-- Another thread is one call. -/
theorem takesBy_switchThread (s : Session) (thread : Nat) :
    TakesBy [.updateThread thread] s (s.switchThread thread) := by
  unfold switchThread
  dsimp only
  split
  · exact (takesBy_call s (.updateThread thread)).quiet (takesBy_emit _ _)
  · exact takesBy_call s (.updateThread thread)

/-- Another frame is one call. -/
theorem takesBy_changeFrame (s : Session) (frame : Frame) :
    TakesBy [.setFrame frame] s (s.changeFrame frame) :=
  (takesBy_call s (.setFrame frame)).quiet (takesBy_emit _ _)

/-- A thread is told to the status if there is one. -/
theorem takesBy_thread? (s : Session) (found : Option Nat) :
    TakesBy (found.toList.map .updateThread) s
      (match found with | some thread => s.switchThread thread | none => s) := by
  cases found with
  | none => exact takesBy_refl s
  | some thread => exact takesBy_switchThread s thread

/-- A frame is told to the status if there is one. -/
theorem takesBy_frame? (s : Session) (found : Option Frame) :
    TakesBy (found.toList.map .setFrame) s
      (match found with | some frame => s.changeFrame frame | none => s) := by
  cases found with
  | none => exact takesBy_refl s
  | some frame => exact takesBy_changeFrame s frame

/-- The context of a record makes the calls of its thread and its frame. -/
theorem takesBy_applyContext (s : Session) (fields : Fields) :
    TakesBy fields.contextCalls s (s.applyContext fields) :=
  (takesBy_thread? s _).trans (takesBy_frame? _ _)

/-- Storing a breakpoint makes no call to the status. -/
theorem takesBy_upsertBreakpoint (s : Session) (fields : Fields) :
    TakesBy [] s (s.upsertBreakpoint fields) := by
  unfold upsertBreakpoint
  split
  · exact ⟨⟨s.status, _, s.pending, _, s.signals, s.calls, rfl⟩, rfl⟩
  · exact takesBy_refl s

/-- Forgetting a breakpoint makes no call to the status. -/
theorem takesBy_forgetBreakpoint (s : Session) (number : Nat) :
    TakesBy [] s (s.forgetBreakpoint number) := by
  unfold forgetBreakpoint
  split
  · exact ⟨⟨s.status, _, s.pending, _, s.signals, s.calls, rfl⟩, rfl⟩
  · exact takesBy_refl s

/-! ### Records -/

/-- A notification makes the calls that are listed for its class. -/
theorem takesBy_applyNotice (s : Session) (cls : String) (fields : Fields) :
    TakesBy (fields.noticeCalls cls) s (s.applyNotice cls fields) := by
  unfold applyNotice Fields.noticeCalls
  by_cases hstored : cls = "breakpoint-created" ∨ cls = "breakpoint-modified"
  · rw [if_pos hstored, if_neg (by rcases hstored with rfl | rfl <;> decide)]
    split
    · exact takesBy_upsertBreakpoint s _
    · exact takesBy_refl s
  · rw [if_neg hstored]
    by_cases hdeleted : cls = "breakpoint-deleted"
    · rw [if_pos hdeleted, if_neg (hdeleted ▸ by decide)]
      split
      · exact takesBy_forgetBreakpoint s _
      · exact takesBy_refl s
    · rw [if_neg hdeleted]
      split_ifs
      · exact (takesBy_thread? s _).trans (takesBy_applyContext _ _)
      · exact takesBy_refl s

/-- What a result says about breakpoints makes no call to the status. -/
theorem takesBy_applyResult (s : Session) (cls : String) (fields : Fields) :
    TakesBy [] s (s.applyResult cls fields) := by
  unfold applyResult
  split
  · split
    · exact takesBy_upsertBreakpoint s _
    · exact takesBy_refl s
  · exact takesBy_refl s

/-- Answering who waits makes no call to the status. -/
theorem takesBy_respond (s : Session) (token : Option Token) (cls : String) (fields : Fields) :
    TakesBy [] s (s.respond token cls fields) :=
  (tells_respond s token cls fields).takesBy

/-- Scheduling a refresh makes no call to the status. -/
theorem takesBy_scheduleIfStopped (s : Session) (cls : String) :
    TakesBy [] s (s.scheduleIfStopped cls) :=
  (tells_scheduleIfStopped s cls).takesBy

/-- What taking in a record does to a session. -/
theorem takesBy_receive (s : Session) (record : Record) :
    TakesBy record.calls s (s.receive record) := by
  cases record with
  | stream channel text =>
    cases channel with
    | console | target => exact takesBy_emit s _
    | log => exact takesBy_refl s
  | async notice token cls fields =>
    cases notice with
    | exec =>
      exact ((((takesBy_call s (.onAsync cls)).trans (takesBy_applyContext _ fields)).quiet
        (takesBy_respond _ token cls fields)).quiet (takesBy_scheduleIfStopped _ cls)).quiet
          (takesBy_emit _ _)
    | notify =>
      exact ((takesBy_applyNotice s cls fields).quiet (takesBy_respond _ token cls fields)).quiet
        (takesBy_emit _ _)
    | status => exact (takesBy_respond s token cls fields).quiet (takesBy_emit _ _)
  | result token cls fields =>
    rw [receive, Record.calls]
    split_ifs
    · refine ((takesBy_call s (.onResult token "error")).quiet ?_).quiet (takesBy_emit _ _)
      -- Whoever waits is told of the error, if the record has a token.
      cases token with
      | none => exact takesBy_refl _
      | some token => exact (tells_answer _ token _).takesBy
    · exact (((((takesBy_call s (.onResult token cls)).trans (takesBy_applyContext _ fields)).quiet
        (takesBy_applyResult _ cls fields)).quiet (takesBy_respond _ token cls fields)).quiet
          (takesBy_scheduleIfStopped _ cls)).quiet (takesBy_emit _ _)
  | prompt => exact takesBy_refl s

/-- A record changes at most the status, the breakpoints, the handlers and what is published. -/
theorem takes_receive (s : Session) (record : Record) : s.Takes (s.receive record) :=
  (takesBy_receive s record).1

/-- The status after a record is the one that its calls lead to. -/
theorem status_receive (s : Session) (record : Record) :
    (s.receive record).status = record.calls.foldl Status.Call.apply s.status :=
  (takesBy_receive s record).2

/-- No record ends a session, and none brings it back. -/
theorem terminated_receive_iff (s : Session) (record : Record) :
    (s.receive record).status.state = .terminated ↔ s.status.state = .terminated := by
  rw [status_receive, Status.terminated_foldl_iff, or_iff_left record.terminate_notMem_calls]

/-! ### Lines -/

/-- A line of output is taken in as the record that it holds. A line that holds none changes
nothing. -/
theorem receiveLine_eq (s : Session) (line : String) :
    s.receiveLine line = match Record.ofLine? line with
      | some record => s.receive record
      | none => s := by
  unfold receiveLine Record.ofLine?
  dsimp only
  split_ifs
  · rfl
  · cases Record.parse (String.ofList (Text.dropEndWhile (fun c ↦ c = '\r' || c = '\n')
      line.toList)) <;> rfl

end Session

end DebugLink
