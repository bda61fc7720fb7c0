import DebugLink.Proofs.Session.Restocking

/-!
The sessions that arise from completed operations (`Session.Arises`). Whatever the operations are
and however they end, such a session is kindred (`Session.Arises.kindred`), as long as the debugger
names objects as it should.
-/

set_option autoImplicit false

namespace DebugLink

namespace Errand

open Session Operation

/-- Whether an operation concerns neither variable objects nor watches. -/
def Aside : Errand → Prop
  | execute _ | send _ | sendWith _ | loadFile _ _ | setBreak _ | deleteBreakpoints _ | enable _
  | disable _ | setCondition _ _ | selectFrame _ | evaluate _ => True
  | createObject _ | fetchValue _ | fetchPath _ | assign _ _ | setFormat _ _ | deleteObject _
  | listChildren _ | updateObjects | addWatch _ | removeWatch _ => False

/-- An operation that concerns neither objects nor watches leaves the holdings alone. -/
theorem Aside.within_holdings {errand : Errand} (h : errand.Aside) :
    Operation.Within (fun s s' ↦ s'.holdings = s.holdings) errand.operation := by
  cases errand with
  | execute command => exact within_bind (within_execute command) fun _ ↦ within_pure ()
  | send command =>
    exact within_bind (Task.within_step fun s ↦ s.holdings_submit command none) fun _ ↦
      within_pure ()
  | sendWith command =>
    exact within_bind (Task.within_step fun s ↦ s.holdings_submit command (some .callback)) fun _ ↦
      within_pure ()
  | loadFile path arguments =>
    exact within_bind (within_request _) fun _ ↦ within_bind (within_request _) fun _ ↦
      within_update fun _ ↦ rfl
  | setBreak request =>
    refine within_bind (within_bind (within_request _) fun response ↦ ?_) fun _ ↦ within_pure ()
    split
    · exact within_pure _
    · exact within_throw _
  | deleteBreakpoints numbers =>
    refine within_bind (within_request _) fun _ ↦ within_update fun s ↦
      holdings_foldl (fun s number ↦ ?_) numbers s
    unfold forgetBreakpoint
    split <;> rfl
  | enable numbers | disable numbers =>
    exact within_bind (within_request _) fun _ ↦ within_update fun s ↦
      holdings_foldl holdings_emit _ _
  | setCondition number expression =>
    refine within_bind (within_request _) fun _ ↦ within_update fun s ↦ ?_
    unfold recordCondition
    dsimp only
    split <;> rfl
  | selectFrame level =>
    exact within_bind (within_bind (within_request _) fun _ ↦
      within_bind (within_request _) fun _ ↦ within_pure _) fun _ ↦ within_pure ()
  | evaluate expression =>
    exact within_bind (within_bind (within_request _) fun response ↦ within_textOf response _ _)
      fun _ ↦ within_pure ()
  | _ => exact h.elim

/-- Every operation leaves sessions kindred. -/
theorem tends (errand : Errand) : errand.operation.run.Tends (fun _ _ ↦ True) fun _ ↦ True := by
  have haside : errand.Aside → errand.operation.run.Tends (fun _ _ ↦ True) fun _ ↦ True :=
    fun h ↦ (Task.tends_of_within h.within_holdings fun _ _ hquiet hs ↦ hs.of_holdings hquiet).mono
      (fun _ _ _ ↦ trivial) fun _ _ ↦ trivial
  have hwatches : ∀ {α : Type} {R : Session → Session → Prop} {post : α → Prop}
      {operation : Operation α}, Operation.Tends R post operation →
        (do let _ ← operation : Operation Unit).run.Tends (fun _ _ ↦ True) fun _ ↦ True :=
    fun h ↦ (tends_bind (Q := fun _ ↦ True) h fun _ _ ↦ tends_pure trivial).mono
      (fun _ _ _ ↦ trivial) fun _ _ ↦ trivial
  cases errand with
  | createObject expression => exact hwatches (tends_createObject expression)
  | fetchValue name => exact hwatches (tends_fetchValue name)
  | fetchPath name => exact hwatches (tends_fetchPath name)
  | assign name expression => exact hwatches (tends_assign name expression)
  | setFormat name format => exact hwatches (tends_setFormat name format)
  | deleteObject name => exact hwatches (tends_deleteObject name)
  | listChildren name => exact hwatches (tends_listChildren name)
  | updateObjects => exact hwatches (tends_updateObjects _)
  | addWatch expression => exact hwatches (tends_addWatch _ expression)
  | removeWatch id => exact hwatches (tends_removeWatch id)
  | _ => exact haside trivial

end Errand

namespace Session

/-- The sessions that arise when operations are completed one after another, with any success, where
the debugger names objects as it should. Between two of them, and while one waits, anything may
happen to the session except to what it holds. -/
inductive Arises : Session → Prop
  | start (options : SessionOptions) : Arises (start options)
  | idle {s s' : Session} (h : Arises s) (hquiet : s'.holdings = s.holdings) : Arises s'
  | perform {s s' : Session} {errand : Errand} {trace : List Exchange}
      {result : Except SessionError Unit} (h : Arises s)
      (hrun : errand.operation.run.Runs s trace result s')
      (hnamed : ∀ exchange ∈ trace, exchange.Named) : Arises s'

theorem Arises.kindred {s : Session} (h : s.Arises) : s.Kindred := by
  induction h with
  | start options => exact .start options
  | idle _ hquiet ih => exact ih.of_holdings hquiet
  | perform _ hrun hnamed ih => exact ((Errand.tends _).kindred hrun ih hnamed).1

end Session

end DebugLink
