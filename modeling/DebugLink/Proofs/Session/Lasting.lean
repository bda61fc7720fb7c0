import DebugLink.Proofs.Session.Within
import DebugLink.Session.Schedule

/-!
What lasts while a session is at work. A property of sessions lasts if nothing ends it that happens
to a session by itself: lines of output, submissions, giving up, updates of variable objects and
watches, and the end (`Session.Lasting`). If all jobs of a session at work keep such a property too
(`World.Upholds`), then it holds after every step (`World.Upholds.step?`), and so whenever
everything waits, however the debugger answers.
-/

set_option autoImplicit false

namespace DebugLink

variable {α σ ρ : Type} {P : Session → Prop}

/-- A task keeps a property of sessions: no change that it makes ends it. -/
def Task.Keeps (P : Session → Prop) (task : Task α) : Prop :=
  task.Within fun s s' ↦ P s → P s'

/-- A property of sessions that nothing ends which happens to a session by itself. -/
structure Session.Lasting (P : Session → Prop) : Prop where
  newTicket : ∀ {s}, P s → P s.newTicket.2
  submit : ∀ {s}, P s → ∀ command handler, P (s.submit command handler).2
  cancel : ∀ {s}, P s → ∀ token, P (s.cancel token)
  receiveLine : ∀ {s}, P s → ∀ line, P (s.receiveLine line)
  receiveTarget : ∀ {s}, P s → ∀ line, P (s.receiveTarget line)
  finish : ∀ {s}, P s → ∀ exitCode, P (s.finish exitCode)
  written : ∀ {s}, P s → P { s with outbox := [] }
  closed : ∀ {s}, P s → P { s with writable := false }
  hold : ∀ {s}, P s → ∀ objects watches nextWatch, P { s with objects, watches, nextWatch }
  report : ∀ {s}, P s → ∀ event, event.AboutWatches → P (s.emit event)

/-- That a property is kept is a relation that steps of other parties respect. -/
theorem Session.Lasting.indifferent (hP : Session.Lasting P) :
    Session.Indifferent fun s s' ↦ P s → P s' where
  trans hfirst hlast hs := hlast (hfirst hs)
  hold _ objects watches nextWatch hs := hP.hold hs objects watches nextWatch
  report _ event hevent hs := hP.report hs event hevent

/-- The update that the debugger asks for keeps every lasting property. -/
theorem Session.Lasting.keeps_updateJob (hP : Session.Lasting P) :
    (World.updateJob : Job ρ).Keeps P :=
  Task.within_bind (hP.indifferent.within_updateObjects _) fun _ ↦ trivial

/-- A task that goes on as far as it can keeps the property, and so does what remains of it. -/
theorem Task.Keeps.advance (hP : Session.Lasting P) {task : Task α} {s : Session}
    (h : task.Keeps P) (hs : P s) :
    P (task.advance s).2 ∧ ∀ ticket token next, (task.advance s).1 = .waiting ticket token next →
      ∀ answer, (next answer).Keeps P := by
  induction task generalizing s with
  | done value => exact ⟨hs, nofun⟩
  | act change next ih => exact ih s (h s).2 ((h s).1 hs)
  | exchange command next ih =>
    have hsubmit := hP.submit (hP.newTicket hs) command (some (.waiter s.newTicket.1))
    unfold Task.advance
    dsimp only
    split
    · rename_i e s₁ heq
      rw [heq] at hsubmit
      exact ih (.error e) (h (.error e)) hsubmit
    · rename_i token s₁ heq
      rw [heq] at hsubmit
      split_ifs
      · exact ih (.error (.timeout token)) (h _) (hP.cancel hsubmit token)
      · refine ⟨hsubmit, fun ticket token' next' hwaiting ↦ ?_⟩
        obtain ⟨-, -, rfl⟩ := Standstill.waiting.inj hwaiting
        exact h
  | endless => exact ⟨hs, nofun⟩

namespace World

/-- The session has a property, and every job keeps it. -/
structure Upholds (P : Session → Prop) (w : World σ ρ) : Prop where
  session : P w.session
  front : ∀ job ∈ w.front, job.Keeps P
  ready : ∀ job ∈ w.ready, job.Keeps P
  waiting : ∀ waiting ∈ w.waiting, ∀ answer, (waiting.next answer).Keeps P

variable {w : World σ ρ} {job : Job ρ}

/-- At the beginning no job is there that could end the property. -/
theorem upholds_start (options : SessionOptions) (state : σ) (h : P (Session.start options)) :
    (start options state : World σ ρ).Upholds P :=
  ⟨h, nofun, nofun, nofun⟩

namespace Upholds

/-! ### Jobs -/

/-- A job that keeps the property may be added. -/
theorem spawn (h : w.Upholds P) (hjob : job.Keeps P) : (w.spawn job).Upholds P where
  session := h.session
  front := h.front
  ready other hother := by
    rcases List.mem_append.mp hother with hold | hnew
    · exact h.ready other hold
    · rwa [List.mem_singleton.mp hnew]
  waiting := h.waiting

/-- A job that keeps the property may be taken up where it waits. -/
theorem resume (h : w.Upholds P) (waiting : Waiting ρ) (hjob : job.Keeps P) :
    (w.resume waiting job).Upholds P := by
  unfold World.resume
  split_ifs
  · exact ⟨h.session, fun other hother ↦ Option.some.inj hother ▸ hjob, h.ready, h.waiting⟩
  · exact h.spawn hjob

/-- Any session with the property may take the place of the session. -/
theorem session_eq (h : w.Upholds P) {session : Session} (hsession : P session) :
    Upholds P { w with session } :=
  ⟨hsession, h.front, h.ready, h.waiting⟩

/-- The job in front may be done. -/
theorem front_eq_none (h : w.Upholds P) : Upholds P { w with front := none } :=
  ⟨h.session, nofun, h.ready, h.waiting⟩

/-- The jobs that are ready may be others, if they keep the property. -/
theorem ready_eq (h : w.Upholds P) (ready : List (Job ρ)) (hready : ∀ job ∈ ready, job.Keeps P) :
    Upholds P { w with ready } :=
  ⟨h.session, h.front, hready, h.waiting⟩

/-- What upholds the property at each of some items does so over all of them. -/
theorem foldl {f : World σ ρ → α → World σ ρ} (h : w.Upholds P) (items : List α)
    (hf : ∀ w, w.Upholds P → ∀ item ∈ items, (f w item).Upholds P) :
    (items.foldl f w).Upholds P :=
  List.foldlRecOn items f h hf

variable (hP : Session.Lasting P) (h : w.Upholds P)
include hP h

/-- An answer makes a job ready that waited for it, and a stop begins an update. -/
theorem hear (signal : Signal) : (w.hear signal).Upholds P := by
  cases signal with
  | answered ticket result =>
    unfold World.hear
    dsimp only
    split
    · rename_i waiting hfind
      have hothers : Upholds P { w with waiting := w.waiting.filter (·.ticket ≠ ticket) } :=
        ⟨h.session, h.front, h.ready, fun other hother ↦
          h.waiting other (List.mem_of_mem_filter hother)⟩
      exact hothers.resume waiting (h.waiting waiting (List.mem_of_find?_eq_some hfind) result)
    · exact h
  | updateDue => exact h.spawn hP.keeps_updateJob

/-- Waking jobs whose answers have come changes no session. -/
theorem wake : w.wake.Upholds P := by
  have hheard : Upholds P { w with heard := w.session.signals.length } :=
    ⟨h.session, h.front, h.ready, h.waiting⟩
  exact hheard.foldl _ fun _ hw signal _ ↦ hear hP hw signal

/-- A job that keeps the property may run until it waits. -/
theorem runJob (inFront : Bool) (hjob : job.Keeps P) : (w.runJob inFront job).Upholds P := by
  obtain ⟨hsession, hremains⟩ := hjob.advance hP h.session
  unfold World.runJob
  refine wake hP ?_
  dsimp only
  split
  · exact ⟨hsession, h.front, h.ready, h.waiting⟩
  · rename_i ticket token next heq
    refine ⟨hsession, h.front, h.ready, fun waiting hwaiting ↦ ?_⟩
    rcases List.mem_append.mp hwaiting with hold | hnew
    · exact h.waiting waiting hold
    · rw [List.mem_singleton.mp hnew]
      exact hremains ticket token next heq
  · exact ⟨hsession, h.front, h.ready, h.waiting⟩

/-! ### The debugger's end -/

/-- Taking in a line is lasting. -/
theorem takeIn (line : String) : (w.takeIn line).Upholds P :=
  h.session_eq (hP.receiveLine h.session line)

/-- Output of the debugger is taken in line by line. -/
theorem feed (bytes : List UInt8) : (w.feed bytes).Upholds P := by
  unfold World.feed
  split_ifs
  · have hkept : Upholds P { w with remainder := (Line.complete (w.remainder ++ bytes)).2 } :=
      ⟨h.session, h.front, h.ready, h.waiting⟩
    exact hkept.foldl _ fun _ hw line _ ↦ takeIn hP hw line
  · exact h

/-- The end of the output ends the session, which is lasting. -/
theorem closeOutput : w.closeOutput.Upholds P := by
  unfold World.closeOutput
  split_ifs
  · have hkept : Upholds P { w with remainder := [] } :=
      ⟨h.session, h.front, h.ready, h.waiting⟩
    have htaken := hkept.foldl (Line.last? w.remainder).toList fun _ hw line _ ↦ takeIn hP hw line
    exact ⟨hP.finish htaken.session none, htaken.front, htaken.ready, htaken.waiting⟩
  · exact h

omit hP in
/-- Closing the input is lasting. -/
theorem closeInput : w.closeInput.Upholds P :=
  ⟨h.session, h.front, h.ready, h.waiting⟩

/-- Output of the target is lasting. -/
theorem feedTarget (bytes : List UInt8) : (w.feedTarget bytes).Upholds P :=
  h.session_eq (List.foldlRecOn (Line.all bytes) Session.receiveTarget h.session
    fun _ hs line _ ↦ hP.receiveTarget hs line)

variable (debugger : Debugger σ)

/-- A line that reaches the debugger changes the world by what the debugger answers. -/
theorem deliver (line : String) : (w.deliver debugger line).Upholds P := by
  refine feed hP ?_ _
  exact ⟨h.session, h.front, h.ready, h.waiting⟩

/-- What is written reaches the debugger line by line. -/
theorem write (text : String) : (w.write debugger text).Upholds P := by
  unfold World.write
  split_ifs
  · exact h.foldl _ fun _ hw line _ ↦ deliver hP hw debugger line
  · exact h.session_eq (hP.closed h.session)

/-- The outbox reaches the debugger in order. -/
theorem flush : (w.flush debugger).Upholds P :=
  (h.session_eq (hP.written h.session)).foldl _ fun _ hw text _ ↦ write hP hw debugger text

/-! ### Going on -/

/-- The next thing that happens, whatever it is. -/
theorem step? {w' : World σ ρ} (hstep : w.step? debugger = some w') : w'.Upholds P := by
  unfold World.step? at hstep
  cases hready : w.ready with
  | cons job others =>
    rw [hready] at hstep
    obtain rfl := Option.some.inj hstep
    have hall : ∀ job' ∈ job :: others, job'.Keeps P := hready ▸ h.ready
    refine runJob hP (h.ready_eq others fun other hother ↦ ?_) false (hall job List.mem_cons_self)
    exact hall other (List.mem_cons_of_mem _ hother)
  | nil =>
    rw [hready] at hstep
    dsimp only at hstep
    split_ifs at hstep
    · obtain rfl := Option.some.inj hstep
      exact wake hP (flush hP h debugger)
    · obtain ⟨job, hjob, rfl⟩ := Option.map_eq_some_iff.mp hstep
      refine runJob hP (h.front_eq_none.ready_eq [] ?_) true (h.front job hjob)
      exact nofun

/-- Settling runs jobs that keep the property and writes what they send. -/
theorem settle : (w.settle debugger).Upholds P := by
  unfold World.settle
  generalize patience = fuel
  induction fuel generalizing w with
  | zero => exact h
  | succ fuel ih =>
    unfold settleWithin
    split
    · rename_i w' hstep
      exact ih (step? hP h debugger hstep)
    · exact h

/-! ### Time -/

omit debugger

/-- Those who have waited too long go on with the error, and everything else stays as it is. -/
theorem moveClock (time : Nat) : (w.moveClock time).Upholds P := by
  have hlate : ∀ waiting ∈ (w.waiting.partition (·.deadline ≤ time)).1.mergeSort
      fun a b ↦ a.deadline ≤ b.deadline, (giveUp waiting).Keeps P := by
    intro waiting hwaiting s
    rw [List.mem_mergeSort, List.partition_eq_filter_filter] at hwaiting
    exact ⟨fun hs ↦ hP.cancel hs waiting.token,
      h.waiting waiting (List.mem_of_mem_filter hwaiting) _⟩
  have hpatient : Upholds P { w with
      clock := max w.clock time
      waiting := (w.waiting.partition (·.deadline ≤ time)).2 } := by
    refine ⟨h.session, h.front, h.ready, fun waiting hwaiting ↦ h.waiting waiting ?_⟩
    rw [List.partition_eq_filter_filter] at hwaiting
    exact List.mem_of_mem_filter hwaiting
  have hresumed := hpatient.foldl _ fun _ hw waiting hwaiting ↦
    hw.resume waiting (hlate waiting hwaiting)
  unfold World.moveClock
  dsimp only
  -- The job in front may be one of those that have given up.
  split
  · rename_i job hfront
    exact runJob hP hresumed.front_eq_none true (hresumed.front job hfront)
  · exact hresumed

/-- Waiting for results does nothing but settle and let time pass. -/
theorem awaitWithin (debugger : Debugger σ) (enough : List ρ → Bool) (fuel : Nat) :
    (w.awaitWithin debugger enough fuel).Upholds P := by
  induction fuel generalizing w with
  | zero => exact h
  | succ fuel ih =>
    have hsettled := settle hP h debugger
    unfold World.awaitWithin
    dsimp only
    split_ifs
    · exact hsettled
    · split
      · exact ih (moveClock hP hsettled _)
      · exact hsettled

/-! ### What happens to a session at work -/

/-- Time may pass. -/
theorem pass (debugger : Debugger σ) (milliseconds : Nat) :
    (w.pass debugger milliseconds).Upholds P :=
  settle hP (moveClock hP h _) debugger

/-- A job that keeps the property may begin. -/
theorem begin (debugger : Debugger σ) (hjob : job.Keeps P) :
    (w.begin debugger job).Upholds P :=
  settle hP (h.spawn hjob) debugger

/-- A job that keeps the property may be completed. -/
theorem complete (debugger : Debugger σ) (hjob : job.Keeps P) (enough : List ρ → Bool) :
    (w.complete debugger job enough).Upholds P :=
  awaitWithin hP (runJob hP h true hjob) debugger enough patience

omit h in
/-- What the world does by itself after a change upholds the property, if the change does. -/
theorem after (debugger : Debugger σ) (change : World σ ρ → World σ ρ)
    (hchange : (change w).Upholds P) : (w.after debugger change).Upholds P :=
  settle hP (wake hP hchange) debugger

end Upholds

end World

end DebugLink
