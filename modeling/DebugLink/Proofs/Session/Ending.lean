import DebugLink.Proofs.Session.Reporting
import DebugLink.Proofs.Session.Submission
import DebugLink.Proofs.Session.View

/-!
The end of a session, which comes once. Lines of output, commands, timeouts and further ends come in
any order (`Motion`); the first end makes the status final and is announced with its exit code, and
nothing afterwards changes that or gets a command through (`Session.ended_once`). The operations
that are under way at the end do not change it either (`World.ended_for_good`).
-/

set_option autoImplicit false

namespace DebugLink

/-- The exit code that an event announces. -/
def Event.exitCode? : Event → Option (Option Int)
  | sessionEnded exitCode => some exitCode
  | _ => none

/-- No event that a record brings about announces the end. -/
theorem Event.OfRecord.exitCode?_eq_none {event : Event} (h : event.OfRecord) :
    event.exitCode? = none := by
  cases event with
  | sessionEnded exitCode => exact h.elim
  | _ => rfl

/-- No event about watches announces the end. -/
theorem Event.AboutWatches.exitCode?_eq_none {event : Event} (h : event.AboutWatches) :
    event.exitCode? = none := by
  cases event with
  | sessionEnded exitCode => exact h.elim
  | _ => rfl

/-- What is done to a session. -/
inductive Motion
  /-- The debugger writes a line. -/
  | line (text : String)
  /-- The target writes a line. -/
  | targetLine (text : String)
  /-- A command is submitted, perhaps with a handler. -/
  | attempt (command : Command) (handler : Option Handler)
  /-- Whoever waits for the answer under a token gives up. -/
  | giveUp (token : Token)
  | finish (exitCode : Option Int)

namespace Motion

/-- The session after a motion. -/
def apply (s : Session) : Motion → Session
  | .line text => s.receiveLine text
  | .targetLine text => s.receiveTarget text
  | .attempt command handler => (s.submit command handler).2
  | .giveUp token => s.cancel token
  | .finish exitCode => s.finish exitCode

/-- Whether a motion ends the session. -/
def Ends : Motion → Prop
  | finish _ => True
  | line _ | targetLine _ | attempt _ _ | giveUp _ => False

end Motion

namespace Session

variable {s s' : Session} {exitCode : Option Int}

/-- The session after motions one after another, from the beginning. -/
def moved (options : SessionOptions) (motions : List Motion) : Session :=
  motions.foldl Motion.apply (start options)

/-- The exit codes that were announced, the first one first. -/
def endings (s : Session) : List (Option Int) :=
  s.events.filterMap Event.exitCode?

/-- Other events announce no end. -/
theorem endings_emit (s : Session) (event : Event) (h : event.exitCode? = none) :
    (s.emit event).endings = s.endings := by
  have hevents : (s.emit event).events = s.events ++ [event] := rfl
  have hnone : [event].filterMap Event.exitCode? = [] := by
    rw [List.filterMap_cons, h]
    rfl
  rw [endings, hevents, List.filterMap_append, hnone, List.append_nil, endings]

/-- What records bring about announces no end. -/
theorem Reports.endings_eq (h : s.Reports s') : s'.endings = s.endings :=
  h.filterMap_events fun _ ↦ Event.OfRecord.exitCode?_eq_none

/-- Telling announces no end. -/
theorem Tells.endings_eq (h : s.Tells s') : s'.endings = s.endings :=
  h.reports.endings_eq

/-- A submission announces no end. -/
theorem endings_submit (s : Session) (command : Command) (handler : Option Handler) :
    (s.submit command handler).2.endings = s.endings := by
  obtain ⟨nextToken, status, outbox, -, htells⟩ := tells_submit s command handler
  exact htells.endings_eq

/-- A line of output announces no end. -/
theorem endings_receiveLine (s : Session) (line : String) :
    (s.receiveLine line).endings = s.endings := by
  rcases receiveLine_cases s line with hsame | ⟨record, hrecord⟩
  · rw [hsame]
  · rw [hrecord]
    exact (reports_receive s record).endings_eq

/-- A line of output makes calls to the status that do not end the session. -/
theorem status_receiveLine_eq (s : Session) (line : String) :
    ∃ calls : List Status.Call, .terminate ∉ calls ∧
      (s.receiveLine line).status = calls.foldl Status.Call.apply s.status := by
  rcases receiveLine_cases s line with hsame | ⟨record, hrecord⟩
  · exact ⟨[], List.not_mem_nil, by rw [hsame, List.foldl_nil]⟩
  · exact ⟨record.calls, record.terminate_notMem_calls, by rw [hrecord, status_receive]⟩

/-! ### Open sessions -/

/-- A session that has not ended and has not said so. -/
structure Open (s : Session) : Prop where
  live : s.status.state ≠ .terminated
  unannounced : s.endings = []

/-- A session that has ended, with the exit code that it announced. -/
structure Ended (exitCode : Option Int) (s : Session) : Prop where
  terminated : s.status.state = .terminated
  stopped : s.status.running = false
  announced : s.endings = [exitCode]

/-- A new session is open. -/
theorem open_start (options : SessionOptions) : (start options).Open :=
  ⟨nofun, rfl⟩

/-- The first end. -/
theorem Open.finish (h : s.Open) (exitCode : Option Int) : (s.finish exitCode).Ended exitCode := by
  have hterminate : s.status.terminate =
      (true, { s.status with state := .terminated, running := false, execToken := none }) := by
    unfold Status.terminate
    rw [if_neg h.live]
  unfold Session.finish terminate
  rw [hterminate]
  dsimp only
  have htells := tells_failAll { s with
    status := { s.status with state := .terminated, running := false, execToken := none } }
  have hbefore := htells.endings_eq.trans h.unannounced
  refine ⟨congrArg Status.state htells.status_eq, congrArg Status.running htells.status_eq, ?_⟩
  unfold endings at hbefore ⊢
  show (_ ++ [Event.sessionEnded exitCode]).filterMap _ = _
  rw [List.filterMap_append, hbefore]
  rfl

/-- A session in which a command begins has not ended. -/
theorem beginCommand_live {status status' : Status} {token : Token} {resumes : Bool}
    (h : status.beginCommand token resumes = .ok status') : status'.state ≠ .terminated := by
  rw [Status.state_of_beginCommand h]
  nofun

/-- A command does not end a session. -/
theorem Open.submit (h : s.Open) (command : Command) (handler : Option Handler) :
    (s.submit command handler).2.Open := by
  refine ⟨?_, (endings_submit s command handler).trans h.unannounced⟩
  rcases submit_cases s command handler with
    ⟨e, -, heq⟩ | ⟨status, registered, hadmitted, rfl, hqueued⟩
  · rw [heq]
    exact h.live
  · have hregister := tells_registerIfAny { s with nextToken := s.tokenAfter command, status }
      (s.tokenFor command) handler
    rcases hqueued with ⟨-, heq⟩ | ⟨-, heq⟩
    · rw [heq]
      exact hregister.status_eq ▸ beginCommand_live hadmitted
    · rw [heq, (hregister.trans (tells_cancel _ _)).status_eq]
      exact beginCommand_live hadmitted

/-- A line of output leaves an open session open. -/
theorem Open.receiveLine (h : s.Open) (line : String) : (s.receiveLine line).Open := by
  refine ⟨?_, (endings_receiveLine s line).trans h.unannounced⟩
  obtain ⟨calls, hcalls, hstatus⟩ := status_receiveLine_eq s line
  rw [hstatus, Ne, Status.terminated_foldl_iff]
  exact not_or.mpr ⟨h.live, hcalls⟩

/-- Only an end ends a session. -/
theorem Open.apply (h : s.Open) {motion : Motion} (hgoes : ¬motion.Ends) :
    (motion.apply s).Open := by
  cases motion with
  | line text => exact h.receiveLine text
  | targetLine text => exact ⟨h.live, (endings_emit s (.targetOutput text) rfl).trans h.unannounced⟩
  | attempt command handler => exact h.submit command handler
  | giveUp token =>
    have htells := tells_cancel s token
    exact ⟨(congrArg Status.state htells.status_eq).trans_ne h.live,
      htells.endings_eq.trans h.unannounced⟩
  | finish exitCode => exact absurd trivial hgoes

/-! ### Ended sessions -/

namespace Ended

variable (h : s.Ended exitCode)
include h

/-- Telling leaves a session ended. -/
theorem of_tells (htells : s.Tells s') : s'.Ended exitCode where
  terminated := htells.status_eq ▸ h.terminated
  stopped := htells.status_eq ▸ h.stopped
  announced := htells.endings_eq.trans h.announced

/-- Events that do not announce an end leave a session ended, with the same exit code. -/
theorem emit (event : Event) (hevent : event.exitCode? = none) : (s.emit event).Ended exitCode :=
  ⟨h.terminated, h.stopped, (endings_emit s event hevent).trans h.announced⟩

/-- Events that do not announce an end leave a session ended, however many there are. -/
theorem emitAll {events : List Event} (hevents : ∀ event ∈ events, event.exitCode? = none) :
    (s.emitAll events).Ended exitCode :=
  List.foldlRecOn events Session.emit h fun _ hbefore event hevent ↦
    hbefore.emit event (hevents event hevent)

/-- The breakpoints play no part in the end. -/
theorem breakpoints_eq (breakpoints : BreakpointTable) :
    Ended exitCode { s with breakpoints } :=
  ⟨h.terminated, h.stopped, h.announced⟩

/-- A session that has ended accepts no input. -/
theorem not_acceptingInput : s.status.acceptingInput = false := by
  unfold Status.acceptingInput
  rw [h.terminated]
  rfl

/-- A command is refused, and nothing comes of it but the next token. -/
theorem submit_eq (command : Command) (handler : Option Handler) :
    s.submit command handler =
      (.error .terminated, { s with nextToken := s.tokenAfter command }) := by
  rw [submit_of_refuses (.inl h.terminated), Status.refusal, if_pos h.terminated]

/-- A submission to a session that has ended leaves it so. -/
theorem submit (command : Command) (handler : Option Handler) :
    (s.submit command handler).2.Ended exitCode := by
  rw [h.submit_eq]
  exact ⟨h.terminated, h.stopped, h.announced⟩

/-- No end comes after the first one. -/
theorem finish_eq (later : Option Int) : s.finish later = s := by
  unfold Session.finish terminate Status.terminate
  rw [if_pos h.terminated]

/-- A late line of output leaves a session ended. -/
theorem receiveLine (line : String) : (s.receiveLine line).Ended exitCode := by
  obtain ⟨calls, -, hstatus⟩ := status_receiveLine_eq s line
  have hsame : s.status.SameRun (s.receiveLine line).status := by
    rw [hstatus]
    exact List.foldlRecOn calls Status.Call.apply ⟨rfl, rfl, rfl⟩
      fun status ⟨hstate, hrunning, htoken⟩ call _ ↦
        have hcall := Status.sameRun_of_terminated (hstate.trans h.terminated) call
        ⟨hcall.1.trans hstate, hcall.2.1.trans hrunning, hcall.2.2.trans htoken⟩
  exact ⟨hsame.1.trans h.terminated, hsame.2.1.trans h.stopped,
    (endings_receiveLine s line).trans h.announced⟩

end Ended

/-- Nothing that happens to a session undoes its end or ends it again. -/
theorem enduring_ended (exitCode : Option Int) : Enduring (Ended exitCode) where
  newTicket h := ⟨h.terminated, h.stopped, h.announced⟩
  submit h := h.submit
  cancel h token := h.of_tells (tells_cancel _ token)
  receiveLine h := h.receiveLine
  receiveTarget h line := h.emit (.targetOutput line) rfl
  finish h later := (h.finish_eq later).symm ▸ h
  written h := ⟨h.terminated, h.stopped, h.announced⟩
  closed h := ⟨h.terminated, h.stopped, h.announced⟩
  hold h _ _ _ := ⟨h.terminated, h.stopped, h.announced⟩
  report h event habout := h.emit event habout.exitCode?_eq_none
  forgetBreakpoint h number := by
    unfold forgetBreakpoint
    split
    · exact (h.breakpoints_eq _).emit (.breakpointDeleted number) rfl
    · exact h
  recordEnabled h numbers enabled := by
    refine (h.breakpoints_eq _).emitAll fun event hevent ↦ ?_
    obtain ⟨b, -, rfl⟩ := List.mem_map.mp hevent
    rfl
  recordCondition h number condition := by
    unfold recordCondition
    dsimp only
    split
    · exact (h.breakpoints_eq _).emit (.breakpointSet _) rfl
    · exact h.breakpoints_eq _
  loaded h path := h.emit (.fileChanged path) rfl

/-- Whatever is done to a session that has ended leaves it so, with the exit code that was
announced. -/
theorem Ended.apply (h : s.Ended exitCode) (motion : Motion) : (motion.apply s).Ended exitCode := by
  have hlasting := (enduring_ended exitCode).toLasting
  cases motion with
  | line text => exact hlasting.receiveLine h text
  | targetLine text => exact hlasting.receiveTarget h text
  | attempt command handler => exact hlasting.submit h command handler
  | giveUp token => exact hlasting.cancel h token
  | finish later => exact hlasting.finish h later

/-- A session is open as long as no motion ends it. By induction on the motions. -/
theorem open_moved (options : SessionOptions) {motions : List Motion}
    (h : ∀ motion ∈ motions, ¬motion.Ends) : (moved options motions).Open :=
  List.foldlRecOn motions Motion.apply (open_start options) fun _ hopen motion hmem ↦
    hopen.apply (h motion hmem)

/-- From the first end on, whatever comes after it, a session is terminated: it takes no input, its
target does not run, every command is refused and leaves everything else as it is, and the one end
that was announced is the first one with its exit code. -/
theorem ended_once (options : SessionOptions) {earlier : List Motion}
    (hearlier : ∀ motion ∈ earlier, ¬motion.Ends) (exitCode : Option Int) (later : List Motion) :
    let s := moved options (earlier ++ .finish exitCode :: later)
    s.status.state = .terminated ∧ s.status.acceptingInput = false ∧ s.status.running = false ∧
      (∀ command handler, s.submit command handler =
        (.error .terminated, { s with nextToken := s.tokenAfter command })) ∧
      s.endings = [exitCode] := by
  have hended : (moved options (earlier ++ .finish exitCode :: later)).Ended exitCode := by
    rw [moved, List.foldl_append, List.foldl_cons]
    exact List.foldlRecOn later Motion.apply ((open_moved options hearlier).finish exitCode)
      fun _ h motion _ ↦ h.apply motion
  exact ⟨hended.terminated, hended.not_acceptingInput, hended.stopped, hended.submit_eq,
    hended.announced⟩

/-- The target is set running and the debugger says that it runs. -/
def runningTarget : List Motion :=
  [.attempt (.plain "-exec-run" [] []) (some .callback), .line "1000001^running", .line "*running"]

/-- The target runs when the debugger exits with 3; its last lines, another command and another end
come afterwards. -/
theorem ended_once_of_late_stop :
    (∀ motion ∈ runningTarget, ¬motion.Ends) ∧
      (moved SessionOptions.standard runningTarget).status.running = true ∧
      let s := moved SessionOptions.standard (runningTarget ++ .finish (some 3) ::
        [.line "*stopped", .attempt (.plain "-break-list" [] []) none, .finish none,
          .line "*running"])
      s.status.state = .terminated ∧ s.status.acceptingInput = false ∧ s.status.running = false ∧
        (∀ command handler, s.submit command handler =
          (.error .terminated, { s with nextToken := s.tokenAfter command })) ∧
        s.endings = [some 3] := by
  have hgoes : ∀ motion ∈ runningTarget, ¬motion.Ends := by
    simp [runningTarget, Motion.Ends]
  have hrunning : (moved SessionOptions.standard runningTarget).status.running = true := by
    decide +kernel
  exact ⟨hgoes, hrunning, ended_once SessionOptions.standard hgoes (some 3) _⟩

end Session

/-- Once a session at work has ended it has announced that once, and nothing that happens then
changes anything about it, whatever operations are under way. -/
theorem World.ended_for_good {σ : Type} (debugger : Debugger σ) (w : World σ Unit)
    {exitCode : Option Int} (h : w.Upholds (Session.Ended exitCode))
    (happenings : List Happening) :
    (w.run debugger happenings).session.Ended exitCode :=
  (upholds_run debugger (Session.enduring_ended exitCode) h happenings).session

end DebugLink
