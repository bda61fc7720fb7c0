import DebugLink.Proofs.Breakpoint.Table
import DebugLink.Proofs.Session.Happenings
import DebugLink.Proofs.Session.Telling

/-!
What an observer knows of a session from its events alone: the breakpoints, the current thread and
the current frame (`View.ofEvents`). Each record that the debugger writes reports something
(`Record.reports`), and a session publishes what is news to its observers (`View.news`) and learns
it itself (`Session.learns_receive`, `Session.learns_receiveLine`); operations on breakpoints do the
same with their own results. So a session is mirrored in its events (`Session.Mirrored`) whatever
happens to it (`World.events_replay`).
-/

set_option autoImplicit false

namespace DebugLink

open BreakpointTable (storeAll storeAll_append)

/-- What an observer of a session knows about it. -/
structure View where
  breakpoints : NumberedTable Breakpoint
  thread : Option Nat
  frame : Option Frame

/-! ### Observers -/

namespace View

/-- What is known before any event. -/
def empty : View :=
  ⟨NumberedTable.empty, none, none⟩

/-- What is known after an event. -/
def apply (view : View) : Event → View
  | .breakpointSet b => { view with breakpoints := view.breakpoints.insert b.number b }
  | .breakpointDeleted number => { view with breakpoints := view.breakpoints.erase number }
  | .threadSwitched thread => { view with thread := some thread }
  | .frameChanged frame => { view with frame := some frame }
  | _ => view

/-- What is known after further events. -/
def after (view : View) (events : List Event) : View :=
  events.foldl apply view

/-- What is known after events from the first one on. -/
def ofEvents (events : List Event) : View :=
  empty.after events

/-- Whether an event has something to tell: a thread that is not the current one, or a breakpoint
less. All other events may come at any time. -/
def Admits (view : View) : Event → Prop
  | .threadSwitched thread => view.thread ≠ some thread
  | .breakpointDeleted number => (view.breakpoints.get? number).isSome
  | _ => True

instance (view : View) : DecidablePred view.Admits
  | .threadSwitched _ => inferInstanceAs (Decidable (_ ≠ _))
  | .breakpointDeleted _ => inferInstanceAs (Decidable (_ = true))
  | .error _ _ | .fileChanged _ | .breakpointSet _ | .frameChanged _ | .processed
  | .watchUpdated _ | .rootUpdated _ | .watchDecoded _ _ | .consoleOutput _ | .targetOutput _
  | .sessionEnded _ => .isTrue trivial

/-- Those of some reports that have something to tell, when they come one after another. -/
def news (view : View) : List Event → List Event
  | [] => []
  | report :: rest =>
    if view.Admits report then report :: (view.apply report).news rest else view.news rest

variable {events : List Event} {view : View}

theorem ofEvents_append_singleton (events : List Event) (event : Event) :
    ofEvents (events ++ [event]) = (ofEvents events).apply event :=
  List.foldl_append

theorem after_append (view : View) (events later : List Event) :
    view.after (events ++ later) = (view.after events).after later :=
  List.foldl_append

/-- A report that has nothing to tell changes nothing. -/
theorem apply_of_not_admits {report : Event} (h : ¬view.Admits report) :
    view.apply report = view := by
  cases report with
  | threadSwitched thread =>
    have hsame : view.thread = some thread := Decidable.not_not.mp h
    rw [apply, ← hsame]
  | breakpointDeleted number =>
    have hunknown : view.breakpoints.get? number = none := by simpa [Admits] using h
    rw [apply, NumberedTable.erase_of_get?_eq_none hunknown]
  | _ => exact absurd trivial h

/-- What comes later is news to someone who knows what came before. -/
theorem news_append (view : View) (reports later : List Event) :
    view.news (reports ++ later) = view.news reports ++ (view.after reports).news later := by
  induction reports generalizing view with
  | nil => rfl
  | cons report rest ih =>
    rw [List.cons_append, news, news, after, List.foldl_cons, ← after]
    split_ifs with hadmits
    · rw [ih, List.cons_append]
    · rw [ih, apply_of_not_admits hadmits]

/-- Events that lead to what is known, each of which had something to tell when it came. -/
inductive Narrates : List Event → View → Prop
  | nil : Narrates [] empty
  | snoc {events : List Event} {view : View} (h : Narrates events view) (event : Event)
      (hadmits : view.Admits event) : Narrates (events ++ [event]) (view.apply event)

namespace Narrates

/-- To take the events in from the first one on leads to what they narrate. -/
theorem ofEvents_eq (h : Narrates events view) : ofEvents events = view := by
  induction h with
  | nil => rfl
  | snoc _ _ _ ih => rw [ofEvents_append_singleton, ih]

/-- Each event had something to tell to someone who had taken in those before it. -/
theorem admits (h : Narrates events view) {earlier : List Event} {event : Event}
    (hearlier : earlier ++ [event] <+: events) : (ofEvents earlier).Admits event := by
  induction h with
  | nil => exact absurd (List.prefix_nil.mp hearlier) (by simp)
  | snoc hnarrates last hadmits ih =>
    -- The event is the last one, or one of those before it.
    rcases List.prefix_concat_iff.mp hearlier with hlast | hbefore
    · obtain ⟨rfl, hevent⟩ := List.append_inj' hlast rfl
      obtain rfl := List.singleton_injective hevent
      exact hnarrates.ofEvents_eq ▸ hadmits
    · exact ih hbefore

/-- What is news may be published, and leads to what was reported. -/
theorem append_news (h : Narrates events view) (reports : List Event) :
    Narrates (events ++ view.news reports) (view.after reports) := by
  induction reports generalizing events view with
  | nil =>
    rw [news, List.append_nil]
    exact h
  | cons report rest ih =>
    rw [news, after, List.foldl_cons, ← after]
    split_ifs with hadmits
    · rw [List.append_cons]
      exact ih (h.snoc report hadmits)
    · rw [apply_of_not_admits hadmits]
      exact ih h

end Narrates

/-- Breakpoints that are stored are always news. -/
theorem news_breakpointsSet (view : View) (stored : List Breakpoint) :
    view.news (stored.map .breakpointSet) = stored.map .breakpointSet := by
  induction stored generalizing view with
  | nil => rfl
  | cons b rest ih =>
    have hadmits : view.Admits (.breakpointSet b) := trivial
    rw [List.map_cons, news, if_pos hadmits, ih]

/-- To take in that breakpoints were stored is to store them. -/
theorem after_breakpointsSet (view : View) (stored : List Breakpoint) :
    view.after (stored.map .breakpointSet) =
      { view with breakpoints := storeAll view.breakpoints stored } := by
  induction stored generalizing view with
  | nil => rfl
  | cons b rest ih => exact ih (view.apply (.breakpointSet b))

end View

/-- Whether an event tells observers nothing about breakpoints, thread and frame. -/
def Event.Quiet (event : Event) : Prop :=
  ∀ view : View, view.Admits event ∧ view.apply event = view

/-- Events about variable objects and watches tell nothing about breakpoints, thread and frame. -/
theorem Event.AboutWatches.quiet {event : Event} (h : event.AboutWatches) : event.Quiet := by
  intro view
  cases event with
  | watchUpdated | rootUpdated | watchDecoded => exact ⟨trivial, rfl⟩
  | _ => exact h.elim

theorem Event.quiet_processed : Event.Quiet .processed :=
  fun _ ↦ ⟨trivial, rfl⟩

/-! ### What records report -/

/-- The thread and the frame that the fields of a record name. -/
def Fields.contextReports (fields : Fields) : List Event :=
  (fields.text? "thread-id" >>= Numeral.word32?).toList.map .threadSwitched ++
    (fields.tuple? "frame" >>= Frame.ofFields?).toList.map .frameChanged

/-- The breakpoint that the fields of a record describe. -/
def Fields.breakpointReports (fields : Fields) : List Event :=
  (fields.tuple? "bkpt" >>= Breakpoint.ofFields?).toList.map .breakpointSet

/-- What the fields of a notification report, by its class. -/
def Fields.noticeReports (fields : Fields) (cls : String) : List Event :=
  if cls = "breakpoint-created" ∨ cls = "breakpoint-modified" then fields.breakpointReports
  else if cls = "breakpoint-deleted" then
    (fields.text? "id" >>= Numeral.word32?).toList.map .breakpointDeleted
  else if cls = "thread-selected" then
    (fields.text? "id" >>= Numeral.word32?).toList.map .threadSwitched ++ fields.contextReports
  else []

/-- What a record reports, the first thing first. -/
def Record.reports : Record → List Event
  | .stream .console text => [.consoleOutput text]
  | .stream .target text =>
    [.targetOutput (String.ofList (Text.dropEndWhile (· = '\n') text.toList))]
  | .stream .log _ => []
  | .async .exec _ _ fields => fields.contextReports ++ [.processed]
  | .async .notify _ cls fields => fields.noticeReports cls ++ [.processed]
  | .async .status _ _ _ => [.processed]
  | .result token cls fields =>
    if cls = "error" then [.error token ((fields.text? "msg").getD "unknown error")]
    else fields.contextReports ++ (if cls = "done" then fields.breakpointReports else []) ++
      [.processed]
  | .prompt => []

/-- What a line of output reports: what the record does that it holds, if it holds one. -/
def lineReports (line : String) : List Event :=
  match Record.ofLine? line with
  | some record => record.reports
  | none => []

/-! ### Learning -/

namespace Session

/-- What a session knows that its observers are told of. -/
def view (s : Session) : View :=
  ⟨s.breakpoints.byNumber, s.status.thread, s.status.frame⟩

/-- A session learns what is reported, and publishes what of it is news. -/
structure Learns (s : Session) (reports : List Event) (s' : Session) : Prop where
  consistent : s'.breakpoints.Consistent
  events : s'.events = s.events ++ s.view.news reports
  view : s'.view = s.view.after reports

variable {s s₁ s' : Session} {reports later : List Event}

/-- Reports that are learned one after another are learned together. -/
theorem Learns.trans (h : s.Learns reports s₁) (h' : s₁.Learns later s') :
    s.Learns (reports ++ later) s' where
  consistent := h'.consistent
  events := by rw [h'.events, h.events, h.view, View.news_append, List.append_assoc]
  view := by rw [h'.view, h.view, View.after_append]

section Steps

variable (h : s.breakpoints.Consistent)
include h

/-- A session that has published nothing and knows what it knew has learned nothing. -/
theorem learns_nothing (hevents : s'.events = s.events)
    (hbreakpoints : s'.breakpoints = s.breakpoints) (hcontext : s.status.SameContext s'.status) :
    s.Learns [] s' where
  consistent := hbreakpoints ▸ h
  events := hevents.trans (List.append_nil _).symm
  view := by
    rw [view, hbreakpoints, hcontext.1, hcontext.2]
    rfl

/-- To tell those who wait how their commands ended is to learn nothing. -/
theorem learns_of_tells (htells : s.Tells s') : s.Learns [] s' := by
  obtain ⟨_, _, _, rfl⟩ := htells
  exact learns_nothing h rfl rfl (Status.sameContext_refl _)

theorem learns_refl : s.Learns [] s :=
  learns_of_tells h (.refl s)

theorem learns_status {status : Status} (hcontext : s.status.SameContext status) :
    s.Learns [] { s with status } :=
  learns_nothing h rfl rfl hcontext

theorem learns_emit {event : Event} (hquiet : event.Quiet) : s.Learns [event] (s.emit event) where
  consistent := h
  events := by
    rw [View.news, if_pos (hquiet s.view).1]
    rfl
  view := (hquiet s.view).2.symm

/-- The session reports a thread only if it is not the current one already. -/
theorem learns_switchThread (thread : Nat) :
    s.Learns [.threadSwitched thread] (s.switchThread thread) := by
  unfold switchThread Status.updateThread
  dsimp only
  have hnews : s.view.news [.threadSwitched thread] =
      if s.status.thread ≠ some thread then [.threadSwitched thread] else [] := rfl
  split_ifs with hnew
  · have hother : s.status.thread ≠ some thread := of_decide_eq_true hnew
    refine ⟨h, ?_, rfl⟩
    rw [hnews, if_pos hother]
    rfl
  · have hsame : ¬s.status.thread ≠ some thread := fun hother ↦ hnew (decide_eq_true hother)
    refine ⟨h, ?_, rfl⟩
    rw [hnews, if_neg hsame, List.append_nil]

theorem learns_changeFrame (frame : Frame) :
    s.Learns [.frameChanged frame] (s.changeFrame frame) :=
  ⟨h, rfl, rfl⟩

/-- A breakpoint is learned if the fields describe one. -/
theorem learns_upsertBreakpoint (fields : Fields) :
    s.Learns ((Breakpoint.ofFields? fields).toList.map .breakpointSet)
      (s.upsertBreakpoint fields) := by
  unfold upsertBreakpoint
  cases Breakpoint.ofFields? fields with
  | none => exact learns_refl h
  | some b =>
    refine ⟨h.insert b, rfl, ?_⟩
    have hview : s.view.after [.breakpointSet b] =
        { s.view with breakpoints := s.breakpoints.byNumber.insert b.number b } := rfl
    exact (hview.trans (by rw [← h.byNumber_insert b]; rfl)).symm

/-- A session that did not know the breakpoint reports nothing. -/
theorem learns_forgetBreakpoint (number : Nat) :
    s.Learns [.breakpointDeleted number] (s.forgetBreakpoint number) := by
  have hconsistent := h.remove number
  have hstored := BreakpointTable.byNumber_remove s.breakpoints number
  have hnews : s.view.news [.breakpointDeleted number] =
      if (s.breakpoints.get? number).isSome then [.breakpointDeleted number] else [] := rfl
  have hview : s.view.after [.breakpointDeleted number] =
      { s.view with breakpoints := s.breakpoints.byNumber.erase number } := rfl
  unfold forgetBreakpoint
  -- The event is published in the same case in which the table gives a breakpoint back.
  unfold BreakpointTable.remove at hconsistent hstored ⊢
  cases hget : s.breakpoints.get? number with
  | none =>
    rw [hget] at hconsistent hstored hnews
    refine ⟨h, ?_, ?_⟩
    · rw [hnews]
      exact (List.append_nil _).symm
    · rw [hview, ← hstored]
      rfl
  | some b =>
    rw [hget] at hconsistent hstored hnews
    refine ⟨hconsistent, ?_, ?_⟩
    · rw [hnews]
      rfl
    · rw [hview, ← hstored]
      rfl

end Steps

/-- Those who wait may be told something before a session reports something else. -/
theorem Learns.emit {event : Event} (h : s.Learns reports s₁) (htells : s₁.Tells s')
    (hquiet : event.Quiet) : s.Learns (reports ++ [event]) (s'.emit event) := by
  have htold := learns_of_tells h.consistent htells
  exact h.trans (htold.trans (learns_emit htold.consistent hquiet))

/-- To answer a command and to ask for an update after a stop are things that are told. -/
theorem tells_respondAndSchedule (s : Session) (token : Option Token) (cls : String)
    (fields : Fields) : s.Tells ((s.respond token cls fields).scheduleIfStopped cls) :=
  (tells_respond s token cls fields).trans (tells_scheduleIfStopped _ cls)

/-! ### Records -/

section Records

variable (h : s.breakpoints.Consistent)
include h

/-- The thread comes before the frame. -/
theorem learns_applyContext (fields : Fields) :
    s.Learns fields.contextReports (s.applyContext fields) := by
  unfold applyContext Fields.contextReports
  dsimp only
  cases fields.text? "thread-id" >>= Numeral.word32? with
  | none =>
    cases fields.tuple? "frame" >>= Frame.ofFields? with
    | none => exact learns_refl h
    | some frame => exact learns_changeFrame h frame
  | some thread =>
    have hthread := learns_switchThread h thread
    cases fields.tuple? "frame" >>= Frame.ofFields? with
    | none => exact hthread
    | some frame => exact hthread.trans (learns_changeFrame hthread.consistent frame)

/-- What describes a breakpoint is found under one name in results and notifications. -/
theorem learns_storeBreakpoint (fields : Fields) :
    s.Learns fields.breakpointReports
      (match fields.tuple? "bkpt" with
        | some bkpt => s.upsertBreakpoint bkpt
        | none => s) := by
  unfold Fields.breakpointReports
  cases fields.tuple? "bkpt" with
  | none => exact learns_refl h
  | some bkpt => exact learns_upsertBreakpoint h bkpt

/-- A session learns from a notification what its class says it reports. -/
theorem learns_applyNotice (cls : String) (fields : Fields) :
    s.Learns (fields.noticeReports cls) (s.applyNotice cls fields) := by
  unfold applyNotice Fields.noticeReports
  split_ifs
  · exact learns_storeBreakpoint h fields
  · cases fields.text? "id" >>= Numeral.word32? with
    | none => exact learns_refl h
    | some number => exact learns_forgetBreakpoint h number
  · dsimp only
    cases fields.text? "id" >>= Numeral.word32? with
    | none => exact learns_applyContext h fields
    | some thread =>
      have hthread := learns_switchThread h thread
      exact hthread.trans (learns_applyContext hthread.consistent fields)
  · exact learns_refl h

/-- Only the result of a command that was done can bring a breakpoint. -/
theorem learns_applyResult (cls : String) (fields : Fields) :
    s.Learns (if cls = "done" then fields.breakpointReports else [])
      (s.applyResult cls fields) := by
  unfold applyResult
  split_ifs
  · exact learns_storeBreakpoint h fields
  · exact learns_refl h

/-- Texts of the debugger and of the target are published; the log is not. -/
theorem learns_onStream (channel : Channel) (text : String) :
    s.Learns (Record.stream channel text).reports (s.onStream channel text) := by
  cases channel with
  | log => exact learns_refl h
  | console | target => exact learns_emit h fun _ ↦ ⟨trivial, rfl⟩

/-- An error is published whether it answers a command or not. -/
theorem learns_onError (token : Option Token) (fields : Fields) :
    s.Learns [.error token ((fields.text? "msg").getD "unknown error")]
      (s.onError token fields) := by
  have hstatus := learns_status h (Status.sameContext_onResult s.status token "error")
  have hquiet : Event.Quiet (.error token ((fields.text? "msg").getD "unknown error")) :=
    fun _ ↦ ⟨trivial, rfl⟩
  unfold onError
  cases token with
  | none => exact hstatus.emit (.refl _) hquiet
  | some token => exact hstatus.emit (tells_answer _ token _) hquiet

/-- Whatever record the debugger writes, a session learns what it reports. -/
theorem learns_receive (record : Record) : s.Learns record.reports (s.receive record) := by
  cases record with
  | stream channel text => exact learns_onStream h channel text
  | async notice token cls fields =>
    cases notice with
    | exec =>
      have hstatus := learns_status h (Status.sameContext_onAsync s.status cls)
      have hcontext := hstatus.trans (learns_applyContext hstatus.consistent fields)
      exact hcontext.emit (tells_respondAndSchedule _ token cls fields) Event.quiet_processed
    | notify =>
      have hnotice := learns_applyNotice h cls fields
      exact hnotice.emit (tells_respond _ token cls fields) Event.quiet_processed
    | status =>
      have hnothing := learns_refl h
      exact hnothing.emit (tells_respond s token cls fields) Event.quiet_processed
  | result token cls fields =>
    unfold receive Record.reports
    dsimp only
    by_cases herror : cls = "error"
    · rw [if_pos herror, if_pos herror]
      exact learns_onError h token fields
    · rw [if_neg herror, if_neg herror]
      have hstatus := learns_status h (Status.sameContext_onResult s.status token cls)
      have hcontext := hstatus.trans (learns_applyContext hstatus.consistent fields)
      have hresult := hcontext.trans (learns_applyResult hcontext.consistent cls fields)
      exact hresult.emit (tells_respondAndSchedule _ token cls fields) Event.quiet_processed
  | prompt => exact learns_refl h

/-- A session learns from a line of output what its record reports, and nothing from a line that
holds none. -/
theorem learns_receiveLine (line : String) :
    s.Learns (lineReports line) (s.receiveLine line) := by
  rw [receiveLine_eq, lineReports]
  cases Record.ofLine? line with
  | none => exact learns_refl h
  | some record => exact learns_receive h record

end Records

/-! ### Operations on breakpoints -/

/-- Events that are emitted one after another come behind those that are there. -/
theorem emitAll_eq (events : List Event) (s : Session) :
    emitAll s events = { s with events := s.events ++ events } := by
  induction events generalizing s with
  | nil =>
    rw [List.append_nil]
    rfl
  | cons event rest ih =>
    rw [List.append_cons]
    exact ih (s.emit event)

/-- The breakpoints that are reported as enabled or disabled are those that are stored anew. -/
theorem markEnabled_stored {table : BreakpointTable} (h : table.Consistent) (enabled : Bool)
    (numbers : List Nat) :
    (markEnabled enabled numbers table).2.Consistent ∧
      (markEnabled enabled numbers table).2.byNumber =
        storeAll table.byNumber (markEnabled enabled numbers table).1 := by
  induction numbers generalizing table with
  | nil => exact ⟨h, rfl⟩
  | cons number rest ih =>
    have hfirst : (table.setEnabled number enabled).2.byNumber = storeAll table.byNumber
        ((table.setEnabled number enabled).2.get? number).toList :=
      h.byNumber_modify number fun _ ↦ rfl
    obtain ⟨hconsistent, hstored⟩ := ih (h.change (.setEnabled number enabled))
    refine ⟨hconsistent, hstored.trans ?_⟩
    rw [markEnabled, storeAll_append, ← hfirst]
    rfl

/-- Breakpoints are changed and then reported. -/
theorem learns_emitAll {breakpoints : BreakpointTable} {stored : List Breakpoint}
    (hconsistent : breakpoints.Consistent)
    (hstored : breakpoints.byNumber = storeAll s.breakpoints.byNumber stored) :
    s.Learns (stored.map .breakpointSet)
      (emitAll { s with breakpoints } (stored.map .breakpointSet)) := by
  rw [emitAll_eq]
  refine ⟨hconsistent, ?_, ?_⟩
  · rw [View.news_breakpointsSet]
  · rw [View.after_breakpointsSet, view, hstored]
    rfl

/-- A session learns which breakpoints were enabled or disabled, and reports each of them as it is
now. -/
theorem learns_recordEnabled (h : s.breakpoints.Consistent) (numbers : List Nat) (enabled : Bool) :
    s.Learns ((markEnabled enabled numbers s.breakpoints).1.map .breakpointSet)
      (s.recordEnabled numbers enabled) := by
  obtain ⟨hconsistent, hstored⟩ := markEnabled_stored h enabled numbers
  exact learns_emitAll hconsistent hstored

/-- A session learns the condition of a breakpoint if it knows the breakpoint. -/
theorem learns_recordCondition (h : s.breakpoints.Consistent) (number : Nat)
    (condition : Option String) :
    s.Learns (((s.breakpoints.setCondition number condition).2.get? number).toList.map
      .breakpointSet) (s.recordCondition number condition) := by
  have hconsistent := h.change (.setCondition number condition)
  have hstored := h.byNumber_modify number (f := fun b ↦ { b with condition }) fun _ ↦ rfl
  have hreport := learns_emitAll hconsistent hstored
  unfold recordCondition BreakpointTable.setCondition
  dsimp only
  cases hget : (s.breakpoints.modify number fun b ↦ { b with condition }).2.get? number with
  | none => rwa [hget] at hreport
  | some b => rwa [hget] at hreport

/-! ### Mirrored sessions -/

/-- A session whose events have told its observers what it knows. -/
structure Mirrored (s : Session) : Prop where
  consistent : s.breakpoints.Consistent
  narrates : View.Narrates s.events s.view

/-- Of a new session there is nothing to know. -/
theorem mirrored_start (options : SessionOptions) : (start options).Mirrored :=
  ⟨BreakpointTable.consistent_empty, .nil⟩

namespace Mirrored

/-- A session that learns something remains mirrored, since it publishes what is news. -/
theorem learns (h : s.Mirrored) (hlearns : s.Learns reports s') : s'.Mirrored where
  consistent := hlearns.consistent
  narrates := by
    rw [hlearns.events, hlearns.view]
    exact h.narrates.append_news reports

theorem of_same (h : s.Mirrored) (hevents : s'.events = s.events)
    (hbreakpoints : s'.breakpoints = s.breakpoints) (hcontext : s.status.SameContext s'.status) :
    s'.Mirrored :=
  h.learns (learns_nothing h.consistent hevents hbreakpoints hcontext)

theorem of_tells (h : s.Mirrored) (htells : s.Tells s') : s'.Mirrored :=
  h.learns (learns_of_tells h.consistent htells)

theorem emit (h : s.Mirrored) {event : Event} (hquiet : event.Quiet) : (s.emit event).Mirrored :=
  h.learns (learns_emit h.consistent hquiet)

/-- To submit a command tells observers nothing. -/
theorem submit (h : s.Mirrored) (command : Command) (handler : Option Handler) :
    (s.submit command handler).2.Mirrored := by
  obtain ⟨nextToken, status, outbox, hcontext, htells⟩ := tells_submit s command handler
  have hbegun : Mirrored { s with nextToken, status, outbox } := h.of_same rfl rfl hcontext
  exact hbegun.of_tells htells

/-- The end of a session tells observers nothing about breakpoints, thread and frame. -/
theorem finish (h : s.Mirrored) (exitCode : Option Int) : (s.finish exitCode).Mirrored := by
  rcases tells_finish s exitCode with hsame | ⟨status, s₁, hcontext, htells, hfinish⟩
  · rwa [hsame]
  · have hended : Mirrored { s with status } := h.of_same rfl rfl hcontext
    rw [hfinish]
    exact (hended.of_tells htells).emit fun _ ↦ ⟨trivial, rfl⟩

theorem receiveLine (h : s.Mirrored) (line : String) : (s.receiveLine line).Mirrored :=
  h.learns (learns_receiveLine h.consistent line)

end Mirrored

/-- Nothing that happens to a session ends it that its observers know what it knows. -/
theorem enduring_mirrored : Enduring Mirrored where
  newTicket h := ⟨h.consistent, h.narrates⟩
  submit h := h.submit
  cancel h token := h.of_tells (tells_cancel _ token)
  receiveLine h := h.receiveLine
  receiveTarget h _ := h.emit fun _ ↦ ⟨trivial, rfl⟩
  finish h := h.finish
  written h := ⟨h.consistent, h.narrates⟩
  closed h := ⟨h.consistent, h.narrates⟩
  hold h _ _ _ := ⟨h.consistent, h.narrates⟩
  report h _ habout := h.emit habout.quiet
  forgetBreakpoint h number := h.learns (learns_forgetBreakpoint h.consistent number)
  recordEnabled h numbers enabled := h.learns (learns_recordEnabled h.consistent numbers enabled)
  recordCondition h number condition :=
    h.learns (learns_recordCondition h.consistent number condition)
  loaded h _ := h.emit fun _ ↦ ⟨trivial, rfl⟩

end Session

/-- Whatever happens to a session at work, its events replay what it knows: taken in from the first
to the last they give its breakpoints, its current frame and its current thread. A thread is
reported as the current one only if another one was before, and a breakpoint as deleted only if it
was known. Whichever record comes next, what it reports is published as far as it is news, and so it
is for a line of output and the record that it holds; a line that holds none changes nothing. -/
theorem World.events_replay {σ : Type} (debugger : Debugger σ) (options : SessionOptions)
    (state : σ) (happenings : List Happening) :
    let s := ((World.start options state).run debugger happenings).session
    (View.ofEvents s.events).breakpoints.values = s.breakpoints.toList ∧
      (View.ofEvents s.events).frame = s.status.frame ∧
      (View.ofEvents s.events).thread = s.status.thread ∧
      (∀ earlier thread, earlier ++ [.threadSwitched thread] <+: s.events →
        (View.ofEvents earlier).thread ≠ some thread) ∧
      (∀ earlier number, earlier ++ [.breakpointDeleted number] <+: s.events →
        ((View.ofEvents earlier).breakpoints.get? number).isSome) ∧
      (∀ record : Record,
        (s.receive record).events = s.events ++ (View.ofEvents s.events).news record.reports) ∧
      (∀ line, (s.receiveLine line).events =
        s.events ++ (View.ofEvents s.events).news (lineReports line)) ∧
      ∀ line, Record.ofLine? line = none → s.receiveLine line = s := by
  have hstart : (World.start options state : World σ Unit).Upholds Session.Mirrored :=
    upholds_start options state (Session.mirrored_start options)
  have hmirrored := (upholds_run debugger Session.enduring_mirrored hstart happenings).session
  have hview := hmirrored.narrates.ofEvents_eq
  dsimp only
  rw [hview]
  exact ⟨rfl, rfl, rfl, fun _ _ ↦ hmirrored.narrates.admits, fun _ _ ↦ hmirrored.narrates.admits,
    fun record ↦ (Session.learns_receive hmirrored.consistent record).events,
    fun line ↦ (Session.learns_receiveLine hmirrored.consistent line).events,
    fun line hnone ↦ by rw [Session.receiveLine_eq, hnone]⟩

end DebugLink
