import DebugLink.Proofs.Session.Lasting
import DebugLink.Session.Control

/-!
Everything that can happen to a session at work (`Happening`): the debugger or the target writes
something, the debugger goes away, time passes, and callers ask for operations (`Errand`), one after
another or at the same time. A lasting property that no operation ends either
(`Session.Enduring`) holds whatever happens (`World.upholds_run`).
-/

set_option autoImplicit false

namespace DebugLink

variable {σ : Type} {P : Session → Prop}

/-! ### Operations -/

/-- An operation that a caller can ask for. -/
inductive Errand
  /-- A command whose answer is waited for; the execution commands are among them. -/
  | execute (command : Command)
  /-- A command whose answer nobody waits for. -/
  | send (command : Command)
  /-- A command whose response goes to a callback. -/
  | sendWith (command : Command)
  | loadFile (path : String) (arguments : List String)
  | setBreak (request : BreakRequest)
  | deleteBreakpoints (numbers : List Nat)
  | enable (numbers : List Nat)
  | disable (numbers : List Nat)
  | setCondition (number : Nat) (expression : String)
  | selectFrame (level : Nat)
  | evaluate (expression : String)
  | createObject (expression : String)
  | fetchValue (name : String)
  | fetchPath (name : String)
  | assign (name expression : String)
  | setFormat (name : String) (format : DisplayFormat)
  | deleteObject (name : String)
  | listChildren (name : String)
  | updateObjects
  | addWatch (expression : String)
  | removeWatch (id : Nat)

namespace Errand

open Session Operation

/-- What is done; the value of the operation is left out. -/
def operation : Errand → Operation Unit
  | execute command => do let _ ← Operation.execute command
  | send command => do let _ ← Operation.send command
  | sendWith command => do let _ ← Operation.sendWith command
  | loadFile path arguments => Session.loadFile path arguments
  | setBreak request => do let _ ← Session.setBreak request
  | deleteBreakpoints numbers => Session.deleteBreakpoints numbers
  | enable numbers => Session.enable numbers
  | disable numbers => Session.disable numbers
  | setCondition number expression => Session.setCondition number expression
  | selectFrame level => do let _ ← Session.selectFrame level
  | evaluate expression => do let _ ← Session.evaluate expression
  | createObject expression => do let _ ← Session.createObject expression
  | fetchValue name => do let _ ← Session.fetchValue name
  | fetchPath name => do let _ ← Session.fetchPath name
  | assign name expression => do let _ ← Session.assign name expression
  | setFormat name format => do let _ ← Session.setFormat name format
  | deleteObject name => do let _ ← Session.deleteObject name
  | listChildren name => do let _ ← Session.listChildren name
  | updateObjects => do let _ ← Session.updateObjects nestingLimit
  | addWatch expression => do let _ ← Session.addWatch nestingLimit expression
  | removeWatch id => do let _ ← Session.removeWatch id

/-- The job that an errand is. It yields a value if somebody waits for its end. -/
def job (errand : Errand) (awaited : Bool) : Job Unit :=
  errand.operation.run.bind fun _ ↦ .done (if awaited then some () else none)

end Errand

/-- A lasting property that no operation ends either. -/
structure Session.Enduring (P : Session → Prop) : Prop extends Session.Lasting P where
  forgetBreakpoint : ∀ {s}, P s → ∀ number, P (s.forgetBreakpoint number)
  recordEnabled : ∀ {s}, P s → ∀ numbers enabled, P (s.recordEnabled numbers enabled)
  recordCondition : ∀ {s}, P s → ∀ number condition, P (s.recordCondition number condition)
  loaded : ∀ {s}, P s → ∀ path, P (s.emit (.fileChanged path))

open Operation in
theorem Session.Enduring.keeps_operation (hP : Session.Enduring P) (errand : Errand) :
    errand.operation.run.Keeps P := by
  have hwatches := hP.toLasting.indifferent
  have hdiscard : ∀ {α : Type} {operation : Operation α},
      Within (fun s s' ↦ P s → P s') operation →
        Within (fun s s' ↦ P s → P s') (do let _ ← operation) :=
    fun h ↦ within_bind h fun _ ↦ within_pure ()
  cases errand with
  | execute command => exact hdiscard (within_execute command)
  | send command =>
    exact hdiscard (Task.within_step fun s hs ↦ hP.submit hs command none)
  | sendWith command =>
    exact hdiscard (Task.within_step fun s hs ↦ hP.submit hs command (some .callback))
  | loadFile path arguments =>
    exact within_bind (within_request _) fun _ ↦ within_bind (within_request _) fun _ ↦
      within_update fun s hs ↦ hP.loaded hs path
  | setBreak request =>
    refine hdiscard (within_bind (within_request _) fun response ↦ ?_)
    split
    · exact within_pure _
    · exact within_throw _
  | deleteBreakpoints numbers =>
    exact within_bind (within_request _) fun _ ↦ within_update fun s hs ↦
      List.foldlRecOn numbers Session.forgetBreakpoint hs fun _ hs number _ ↦
        hP.forgetBreakpoint hs number
  | enable numbers =>
    exact within_bind (within_request _) fun _ ↦ within_update fun s hs ↦
      hP.recordEnabled hs numbers true
  | disable numbers =>
    exact within_bind (within_request _) fun _ ↦ within_update fun s hs ↦
      hP.recordEnabled hs numbers false
  | setCondition number expression =>
    exact within_bind (within_request _) fun _ ↦ within_update fun s hs ↦
      hP.recordCondition hs number _
  | selectFrame level =>
    exact hdiscard (within_bind (within_request _) fun _ ↦
      within_bind (within_request _) fun _ ↦ within_pure _)
  | evaluate expression =>
    exact hdiscard (within_bind (within_request _) fun response ↦ within_textOf response _ _)
  | createObject expression => exact hdiscard (hwatches.within_createObject expression)
  | fetchValue name => exact hdiscard (hwatches.within_fetchValue name)
  | fetchPath name => exact hdiscard (hwatches.within_fetchPath name)
  | assign name expression => exact hdiscard (hwatches.within_assign name expression)
  | setFormat name format => exact hdiscard (hwatches.within_setFormat name format)
  | deleteObject name => exact hdiscard (hwatches.within_deleteObject name)
  | listChildren name => exact hdiscard (hwatches.within_listChildren name)
  | updateObjects => exact hdiscard (hwatches.within_updateObjects _)
  | addWatch expression => exact hdiscard (hwatches.within_addWatch _ expression)
  | removeWatch id => exact hdiscard (hwatches.within_removeWatch id)

/-! ### Happenings -/

/-- Something that happens to a session at work. -/
inductive Happening
  /-- The debugger writes something of its own accord: whole lines or parts of lines, records or
  anything else. -/
  | output (bytes : List UInt8)
  /-- The target writes something. -/
  | targetOutput (bytes : List UInt8)
  /-- The debugger's output ends. -/
  | outputEnds
  /-- The debugger stops reading. -/
  | inputEnds
  | pass (milliseconds : Nat)
  /-- A caller asks for an operation, and it is completed. -/
  | perform (errand : Errand)
  /-- A caller asks for an operation, and others go on meanwhile. -/
  | begin (errand : Errand)

namespace World

variable (debugger : Debugger σ)

/-- The session at work after something has happened and everything waits again. -/
def happen (w : World σ Unit) : Happening → World σ Unit
  | .output bytes => w.after debugger (·.feed bytes)
  | .targetOutput bytes => w.after debugger (·.feedTarget bytes)
  | .outputEnds => w.after debugger (·.closeOutput)
  | .inputEnds => w.closeInput
  | .pass milliseconds => w.pass debugger milliseconds
  | .perform errand =>
    w.complete debugger (errand.job true) fun results ↦ w.results.length < results.length
  | .begin errand => w.begin debugger (errand.job false)

/-- The session at work after happenings one after another. -/
def run (w : World σ Unit) (happenings : List Happening) : World σ Unit :=
  happenings.foldl (happen debugger) w

variable {w : World σ Unit}

theorem Upholds.happen (hP : Session.Enduring P) (h : w.Upholds P) (happening : Happening) :
    (w.happen debugger happening).Upholds P := by
  have hlasting := hP.toLasting
  have hjob : ∀ errand awaited, (Errand.job errand awaited).Keeps P := fun errand _ ↦
    Task.within_bind (hP.keeps_operation errand) fun _ ↦ Task.within_pure _
  cases happening with
  | output bytes => exact after hlasting debugger (·.feed bytes) (feed hlasting h bytes)
  | targetOutput bytes =>
    exact after hlasting debugger (·.feedTarget bytes) (feedTarget hlasting h bytes)
  | outputEnds => exact after hlasting debugger (·.closeOutput) (closeOutput hlasting h)
  | inputEnds => exact closeInput h
  | pass milliseconds => exact h.pass hlasting debugger milliseconds
  | perform errand => exact h.complete hlasting debugger (hjob errand true) _
  | begin errand => exact h.begin hlasting debugger (hjob errand false)

/-- Whatever happens to a session at work, an enduring property holds. -/
theorem upholds_run (hP : Session.Enduring P) (h : w.Upholds P) (happenings : List Happening) :
    (w.run debugger happenings).Upholds P :=
  List.foldlRecOn happenings (World.happen debugger) h fun _ hbefore happening _ ↦
    hbefore.happen debugger hP happening

end World

end DebugLink
