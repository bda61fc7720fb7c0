import DebugLink.Proofs.Session.Adding
import DebugLink.Proofs.Session.Ensuring
import DebugLink.Proofs.Watch.Scalar

/-!
Debuggers that go by expressions. What happens when an object is created for an expression is given
as a function of the expression (`Replies`): the answer to the creation, and the answer to asking
for the value of the new object. So it is settled what comes of an expression (`Replies.object`),
and that is what creating an object yields (`Session.ensures_createObject`). A watch for an object
of scalar type takes no further objects, and so building one comes to the same as creating its
object (`Session.ensures_buildFrom_scalar`).
-/

set_option autoImplicit false

namespace DebugLink

variable {α : Type} {s : Session} {trace : List Exchange} {e expression : String} {v : Variable}

/-! ### Expressions asked for -/

/-- The expression that a command creates an object for. -/
def Command.asked? (command : Command) : Option String :=
  if command.operation = "-var-create" then command.parameters.getLast? else none

/-- The expressions for which objects are to be created, in order. -/
def asked (trace : List Exchange) : List String :=
  trace.filterMap (·.command.asked?)

/-- Nothing is asked for in no exchange. -/
@[simp]
theorem asked_nil : asked [] = [] :=
  rfl

/-- What is asked for in two traces is what the one asks for and then the other. -/
@[simp]
theorem asked_append (before after : List Exchange) :
    asked (before ++ after) = asked before ++ asked after :=
  List.filterMap_append

/-- A creation asks for its expression. -/
@[simp]
theorem asked_varCreate (expression : String) (answer : Except SessionError Response) :
    asked [⟨(Request.varCreate none none expression).command, answer⟩] = [expression] :=
  rfl

/-- Asking for a value asks for no expression. -/
@[simp]
theorem asked_varEvaluateExpression (name : String) (answer : Except SessionError Response) :
    asked [⟨(Request.varEvaluateExpression name).command, answer⟩] = [] :=
  rfl

/-- A deletion asks for no expression. -/
@[simp]
theorem asked_varDelete (name : String) (answer : Except SessionError Response) :
    asked [⟨(Request.varDelete name).command, answer⟩] = [] :=
  rfl

/-- What an answer says of the value of an object that was asked for. -/
def readingOf (name : String) (answer : Except SessionError Response) :
    Except SessionError String := do
  let response ← answer
  match response.fields.text? "value" with
  | some value => pure value
  | none => throw (.invalidResponse (.valueOf name))

/-! ### Replies -/

/-- What a debugger says to expressions. -/
structure Replies where
  /-- The answer when an object is created for an expression. -/
  creation : String → Except SessionError Response
  /-- The answer when the value of that object is asked for. -/
  evaluation : String → Except SessionError Response
  /-- The answers to all other commands. -/
  others : Command → Except SessionError Response

namespace Replies

/-- The debugger that gives these replies. A value is that of the expression asked for last. -/
def responder (replies : Replies) : Responder := fun trace command ↦
  match command.asked? with
  | some expression => replies.creation expression
  | none =>
    match (asked trace).getLast? with
    | some expression =>
      if command.operation = "-var-evaluate-expression" then replies.evaluation expression
      else replies.others command
    | none => replies.others command

/-- What comes of asking for the value of the object that was created for an expression. -/
def reading (replies : Replies) (name expression : String) : Except SessionError String :=
  match replies.evaluation expression with
  | .error e => .error e
  | .ok response =>
    match response.fields.text? "value" with
    | some value => .ok value
    | none => .error (.invalidResponse (.valueOf name))

/-- What comes of an expression: an object with its value, or an error. -/
def object (replies : Replies) (expression : String) : Except SessionError Variable :=
  match replies.creation expression with
  | .error e => .error e
  | .ok response =>
    match Variable.ofCreate expression response.fields with
    | .error e => .error e
    | .ok v =>
      match v.value with
      | some _ => .ok v
      | none =>
        match replies.reading v.name expression with
        | .error e => .error e
        | .ok value => .ok { v with value := some value }

/-- Whether an object can be had for an expression. -/
def Obtains (replies : Replies) (expression : String) : Prop :=
  ∃ v, replies.object expression = .ok v

/-- What asking for an expression does: it is asked for once, and the object is stored if it can be
had. -/
structure Asks (replies : Replies) (expression : String) (trace : List Exchange) (s : Session)
    (trace' : List Exchange) (s' : Session) : Prop where
  asked : DebugLink.asked trace' = DebugLink.asked trace ++ [expression]
  stored : ∀ v, replies.object expression = .ok v → s'.objects = s.objects.insert v

/-- Whether a responder says to an expression, after some exchanges, what the replies say. -/
structure SpokenBy (replies : Replies) (responder : Responder) (trace : List Exchange)
    (expression : String) : Prop where
  creation : responder trace (Request.varCreate none none expression).command =
    replies.creation expression
  evaluation : ∀ response v, replies.creation expression = .ok response →
    Variable.ofCreate expression response.fields = .ok v →
      responder (trace ++ [⟨(Request.varCreate none none expression).command, .ok response⟩])
        (Request.varEvaluateExpression v.name).command = replies.evaluation expression

variable (replies : Replies)

/-- The responder of some replies says what they say. -/
theorem spokenBy_responder (trace : List Exchange) (expression : String) :
    replies.SpokenBy replies.responder trace expression where
  creation := rfl
  evaluation response v _ _ := by
    have hlast : (DebugLink.asked (trace ++
        [⟨(Request.varCreate none none expression).command, .ok response⟩])).getLast? =
          some expression := by simp
    show (match (DebugLink.asked (trace ++ _)).getLast? with
      | some e => replies.evaluation e
      | none => _) = _
    rw [hlast]

/-- The reading of an object is that of the evaluation of its expression. -/
theorem reading_eq (name expression : String) :
    replies.reading name expression = readingOf name (replies.evaluation expression) := by
  unfold reading readingOf
  cases replies.evaluation expression <;> rfl

variable {replies}

/-- An object that was created is in scope and has no children yet. -/
theorem newborn_of_object (h : replies.object expression = .ok v) :
    v.inScope ∧ v.children = none := by
  unfold object at h
  split at h
  · nomatch h
  split at h
  · nomatch h
  rename_i w hcreate
  have hborn : w.inScope ∧ w.children = none := by
    unfold Variable.ofCreate at hcreate
    split at hcreate
    · nomatch hcreate
    · obtain rfl := Except.ok.inj hcreate
      exact ⟨rfl, rfl⟩
  split at h
  · obtain rfl := Except.ok.inj h
    exact hborn
  · split at h
    · nomatch h
    · obtain rfl := Except.ok.inj h
      exact hborn

end Replies

namespace Session

variable {responder : Responder} (replies : Replies)

/-! ### Creating objects -/

/-- The object that comes of an expression is stored once the expression was asked for. -/
theorem ensures_storeObject {trace' : List Exchange} {s' : Session}
    (hobject : replies.object expression = .ok v)
    (hasked : asked trace' = asked trace ++ [expression]) (hobjects : s'.objects = s.objects) :
    (storeObject v).run.Ensures responder (fun result trace'' s'' ↦
      result = replies.object expression ∧ replies.Asks expression trace s trace'' s'')
      trace' s' := by
  have hstored : ∀ w, replies.object expression = .ok w →
      s'.objects.insert v = s.objects.insert w := by
    intro w hw
    obtain rfl : v = w := Except.ok.inj (hobject.symm.trans hw)
    rw [hobjects]
  exact ⟨hobject.symm, hasked, hstored⟩

/-- Deleting an object asks for no expression. -/
theorem ensures_discardObject (name : String) (trace : List Exchange) (s : Session) :
    (discardObject name).Ensures responder
      (fun _ trace' _ ↦ asked trace' = asked trace) trace s := by
  refine Task.ensures_bind (Operation.ensures_request (.varDelete name)) ?_
  rintro result _ s' ⟨-, rfl, -⟩
  exact Task.ensures_update (by simp)

/-- Discarding objects asks for nothing and comes to its end. -/
theorem ensures_discardAll (names : List String) (trace : List Exchange) (s : Session) :
    (discardAll names).Ensures responder
      (fun _ trace' _ ↦ asked trace' = asked trace) trace s := by
  unfold discardAll
  induction names.reverse generalizing trace s with
  | nil => exact Task.ensures_pure rfl
  | cons name rest ih =>
    refine Task.ensures_bind (ensures_discardObject name trace s) fun _ trace' s' h ↦ ?_
    exact (ih trace' s').mono fun _ _ _ h' ↦ h'.trans h

/-- Asking for a value yields what the answer says of it. -/
theorem ensures_askValue (name : String) (trace : List Exchange) (s : Session) :
    (askValue name).run.Ensures responder (fun result trace' s' ↦
      result = readingOf name (responder trace (Request.varEvaluateExpression name).command) ∧
        asked trace' = asked trace ∧ s'.holdings = s.holdings) trace s := by
  refine Operation.ensures_bind (Operation.ensures_request _) ?_ ?_
  · rintro response _ s' ⟨hresponse, rfl, hquiet⟩
    rw [← hresponse]
    unfold Operation.textOf readingOf
    dsimp only [bind, Except.bind]
    cases response.fields.text? "value" with
    | none => exact ⟨rfl, by simp, hquiet⟩
    | some value => exact ⟨rfl, by simp, hquiet⟩
  · rintro error _ s' ⟨hresponse, rfl, hquiet⟩
    rw [← hresponse]
    exact ⟨rfl, by simp, hquiet⟩

/-- Creating an object yields what comes of the expression. -/
theorem ensures_createObject (h : replies.SpokenBy responder trace expression) (s : Session) :
    (createObject expression).run.Ensures responder (fun result trace' s' ↦
      result = replies.object expression ∧ replies.Asks expression trace s trace' s') trace s := by
  refine Operation.ensures_bind (Operation.ensures_request _) ?_ ?_
  swap
  · rintro e _ s' ⟨hcreation, rfl, hquiet⟩
    rw [h.creation] at hcreation
    have hobject : replies.object expression = .error e := by
      rw [Replies.object, ← hcreation]
    exact ⟨hobject.symm, by simp, fun v hv ↦ nomatch hobject.symm.trans hv⟩
  rintro response trace₁ s₁ ⟨hcreation, htrace, hquiet⟩
  rw [h.creation] at hcreation
  have hasked : asked trace₁ = asked trace ++ [expression] := by simp [htrace]
  have hobjects := (holdings_eq_iff.mp hquiet).2.1
  refine Operation.ensures_bind (P := fun result trace' s' ↦
    result = Variable.ofCreate expression response.fields ∧ trace' = trace₁ ∧ s' = s₁)
    (Task.ensures_pure ⟨rfl, rfl, rfl⟩) ?_ ?_
  swap
  · rintro e _ _ ⟨hcreate, rfl, rfl⟩
    have hobject : replies.object expression = .error e := by
      simp only [Replies.object, ← hcreation, ← hcreate]
    exact ⟨hobject.symm, hasked, fun v hv ↦ nomatch hobject.symm.trans hv⟩
  rintro v _ _ ⟨hcreate, rfl, rfl⟩
  cases hvalue : v.value with
  | some value =>
    refine ensures_storeObject replies ?_ hasked hobjects
    simp only [Replies.object, ← hcreation, ← hcreate, hvalue]
  | none =>
    have hevaluation := h.evaluation response v hcreation.symm hcreate.symm
    rw [← htrace] at hevaluation
    refine Operation.ensures_bind_lift (ensures_askValue v.name _ _) ?_
    rintro result trace₂ s₂ ⟨hreading, hsame, hquiet'⟩
    rw [hevaluation, ← replies.reading_eq] at hreading
    cases result with
    | ok value =>
      refine ensures_storeObject replies ?_ (hsame.trans hasked)
        ((holdings_eq_iff.mp hquiet').2.1.trans hobjects)
      simp only [Replies.object, ← hcreation, ← hcreate, hvalue, ← hreading]
    | error e =>
      have hobject : replies.object expression = .error e := by
        simp only [Replies.object, ← hcreation, ← hcreate, hvalue, ← hreading]
      refine Operation.ensures_bind_lift (ensures_discardObject v.name trace₂ s₂) ?_
      rintro _ trace₃ s₃ hsame'
      exact Task.ensures_pure ⟨hobject.symm, hsame'.trans (hsame.trans hasked),
        fun w hw ↦ nomatch hobject.symm.trans hw⟩

/-- Creating an object for an expression comes to what a responder says of that expression. -/
theorem ensures_createTracked_of_spokenBy (h : replies.SpokenBy responder trace expression)
    (list : List String) (s : Session) :
    Keeping.Ensures responder (createTracked expression) list trace s fun result _ trace' s' ↦
      result = replies.object expression ∧ replies.Asks expression trace s trace' s' := by
  refine Keeping.ensures_bind
    (Keeping.ensures_inBuild (ensures_createObject replies h s)) ?_ ?_
  · rintro v _ trace' s' ⟨-, hresult, hasks⟩
    exact Keeping.ensures_bind_modify (Keeping.ensures_pure ⟨hresult, hasks⟩)
  · rintro e _ trace' s' ⟨-, hresult, hasks⟩
    exact ⟨hresult, hasks⟩

/-- Creating an object for an expression comes to what the replies say of it. -/
theorem ensures_createTracked (expression : String) (list : List String) (trace : List Exchange)
    (s : Session) : Keeping.Ensures replies.responder (createTracked expression) list trace s
      fun result _ trace' s' ↦
        result = replies.object expression ∧ replies.Asks expression trace s trace' s' :=
  ensures_createTracked_of_spokenBy replies (replies.spokenBy_responder trace expression) list s

end Session

/-! ### Objects of scalar type -/

namespace Replies

variable (replies : Replies)

/-- Whether an expression has a scalar type, if an object can be had for it at all. -/
def IsScalar (expression : String) : Prop :=
  ∀ v, replies.object expression = .ok v → v.scalar?.isSome

/-- The watch that comes of an expression of scalar type. -/
def watch (expression : String) : Except SessionError Watch :=
  (replies.object expression).map (·.watch expression)

end Replies

namespace Session

variable (replies : Replies) {limit depth : Nat}

/-- The watch on an object of scalar type is built without asking for anything. -/
theorem build_of_scalar (h : v.scalar?.isSome) :
    build limit (depth + 1) v expression = pure (v.watch expression) := by
  unfold Variable.watch
  unfold Variable.scalar? at h ⊢
  simp only [build]
  cases hshape : (v.type.map Shape.classify).getD .raw <;> rw [hshape] at h <;>
    first | rfl | exact absurd h Bool.false_ne_true

/-- Building from an expression of scalar type asks for that expression only. -/
theorem ensures_buildFrom_scalar (h : replies.IsScalar expression) (list : List String)
    (trace : List Exchange) (s : Session) :
    Keeping.Ensures replies.responder (buildFrom (build limit (depth + 1)) expression) list trace s
      fun result _ trace' s' ↦
        result = replies.watch expression ∧ replies.Asks expression trace s trace' s' := by
  refine Keeping.ensures_bind (ensures_createTracked replies expression list trace s) ?_ ?_
  · rintro v list' trace' s' ⟨hobject, hasks⟩
    rw [build_of_scalar (h v hobject.symm)]
    exact Keeping.ensures_pure ⟨by rw [Replies.watch, ← hobject]; rfl, hasks⟩
  · rintro e list' trace' s' ⟨hobject, hasks⟩
    exact ⟨by rw [Replies.watch, ← hobject]; rfl, hasks⟩

end Session

/-! ### Replies from a table -/

/-- A plain type. -/
def TypeName.named (name : String) : TypeName :=
  ⟨[], [⟨name, none⟩], []⟩

namespace Replies

/-- Replies that give an object of an integral type for each expression, named after the expression,
with a value from a table or else zero. For some expressions there is none. -/
def ofTable (values : List (String × String)) (refused : List String) : Replies where
  creation expression :=
    if refused.contains expression then .error (.command 0 "Cannot access memory")
    else Session.described expression "int" ((values.lookup expression).getD "0")
  evaluation _ := .error (.command 0 "")
  others _ := Session.answered []

variable {values : List (String × String)} {refused : List String}

/-- The object that a table of replies gives for an expression. -/
theorem object_ofTable (h : expression ∉ refused) : (ofTable values refused).object expression =
    .ok ⟨expression, expression, some "int", some ((values.lookup expression).getD "0"), 0, true,
      none, none⟩ := by
  have hcreation : (ofTable values refused).creation expression =
      Session.described expression "int" ((values.lookup expression).getD "0") :=
    if_neg (by simpa using h)
  unfold object
  rw [hcreation]
  rfl

/-- An expression that is refused gives an error. -/
theorem object_ofTable_of_mem (h : expression ∈ refused) :
    (ofTable values refused).object expression =
      .error (.command 0 "Cannot access memory") := by
  have hcreation : (ofTable values refused).creation expression =
      .error (.command 0 "Cannot access memory") :=
    if_pos (by simpa using h)
  unfold object
  rw [hcreation]

/-- All objects of a table of replies are numbers. -/
theorem isScalar_ofTable (expression : String) : (ofTable values refused).IsScalar expression := by
  intro v hv
  by_cases h : expression ∈ refused
  · rw [object_ofTable_of_mem h] at hv
    nomatch hv
  · obtain rfl := Except.ok.inj ((object_ofTable h).symm.trans hv)
    show (Shape.classify "int").scalar?.isSome
    rw [Shape.classify_int]
    rfl

end Replies

end DebugLink
