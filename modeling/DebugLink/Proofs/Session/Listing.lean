import DebugLink.Proofs.Session.Replies
import DebugLink.Proofs.Variable.Children

/-!
Debuggers that go by the command. Where each command has its own answer, whatever was exchanged
before, it is settled what comes of an expression (`Informant.replies`) and which children an object
has, each with its value and its full expression (`Informant.listing`). Creating an object yields
the one, and listing the children of an object that has none yet stores the other in the order of
the debugger (`Session.ensures_listChildren`).
-/

set_option autoImplicit false

namespace DebugLink

/-- A debugger whose answer to a command depends on the command alone. -/
abbrev Informant : Type := Command → Except SessionError Response

namespace Informant

variable (informant : Informant)

def responder : Responder := fun _ command ↦ informant command

/-- What the debugger says to expressions. The value of an object is asked for under the name that
the object was created with. -/
def replies : Replies where
  creation expression := informant (Request.varCreate none none expression).command
  evaluation expression := do
    let response ← informant (Request.varCreate none none expression).command
    let v ← Variable.ofCreate expression response.fields
    informant (Request.varEvaluateExpression v.name).command
  others := informant

theorem spokenBy_responder (trace : List Exchange) (expression : String) :
    informant.replies.SpokenBy informant.responder trace expression where
  creation := rfl
  evaluation response v hcreation hv := by
    have hcreation : informant (Request.varCreate none none expression).command = .ok response :=
      hcreation
    dsimp only [responder, replies]
    rw [hcreation]
    dsimp only [bind, Except.bind]
    rw [hv]

/-- A child with its full expression, if the debugger gives it. -/
def located (child : Variable) : Variable :=
  match informant (Request.varInfoPathExpression child.name).command with
  | .ok response => { child with pathExpression := response.fields.text? "path_expr" }
  | .error _ => child

/-- A child with its value and its full expression, if the debugger gives them. -/
def completed (child : Variable) : Variable :=
  let answer := informant (Request.varEvaluateExpression child.name).command
  informant.located
    { child with value := child.value.or (readingOf child.name answer).toOption }

/-- The children of an object in the order in which the debugger lists them. -/
def listing (name : String) : Except SessionError (List Variable) := do
  let response ← informant (Request.varListChildren name .allValues).command
  return ((response.fields.tuples "children").filterMap Variable.ofChild?).map informant.completed

variable {informant}

theorem inScope_of_listing {name : String} {children : List Variable}
    (h : informant.listing name = .ok children) : ∀ child ∈ children, child.inScope := by
  unfold listing at h
  cases hanswer : informant (Request.varListChildren name .allValues).command with
  | error e =>
    rw [hanswer] at h
    nomatch h
  | ok response =>
    rw [hanswer] at h
    obtain rfl := Except.ok.inj h
    intro child hchild
    obtain ⟨listed, hlisted, rfl⟩ := List.mem_map.mp hchild
    obtain ⟨fields, -, hfields⟩ := List.mem_filterMap.mp hlisted
    obtain ⟨_, -, rfl⟩ := Option.map_eq_some_iff.mp hfields
    unfold completed located
    dsimp only
    split <;> rfl

end Informant

namespace Session

variable {informant : Informant} {s : Session} {trace : List Exchange}

/-- Completing a child leaves the objects alone. -/
theorem ensures_completeChild (child : Variable) (trace : List Exchange) (s : Session) :
    (completeChild child).Ensures informant.responder (fun child' _ s' ↦
      child' = informant.completed child ∧ s'.objects = s.objects) trace s := by
  unfold completeChild
  extract_lets fetchPath
  have hpath : ∀ (child : Variable) trace₁ s₁, s₁.holdings = s.holdings →
      (fetchPath child).Ensures informant.responder (fun child' _ s' ↦
        child' = informant.located child ∧ s'.objects = s.objects) trace₁ s₁ := by
    intro child trace₁ s₁ hquiet
    refine Task.ensures_bind (Operation.ensures_request _) ?_
    rintro answer _ s₂ ⟨hanswer, -, hsame⟩
    have hobjects : s₂.objects = s.objects := (holdings_eq_iff.mp (hsame.trans hquiet)).2.1
    have hanswer : informant (Request.varInfoPathExpression child.name).command = answer :=
      hanswer.symm
    unfold Informant.located
    rw [hanswer]
    cases answer <;> exact ⟨rfl, hobjects⟩
  unfold Informant.completed
  dsimp only
  cases hvalue : child.value with
  | some value =>
    have hsame : { child with value := some value } = child := by rw [← hvalue]
    rw [Option.some_or, hsame]
    exact hpath child trace s rfl
  | none =>
    refine Task.ensures_bind (ensures_askValue child.name trace s) ?_
    rintro answer trace₁ s₁ ⟨hanswer, -, hquiet⟩
    have hanswer : answer = readingOf child.name
        (informant (Request.varEvaluateExpression child.name).command) := hanswer
    rw [← hanswer]
    cases answer with
    | ok value => exact hpath { child with value := some value } trace₁ s₁ hquiet
    | error e =>
      have hsame : { child with value := none } = child := by rw [← hvalue]
      rw [Option.none_or, Except.toOption, hsame]
      exact hpath child trace₁ s₁ hquiet

theorem ensures_completeChildren (children : List Variable) (trace : List Exchange) (s : Session) :
    (completeChildren children).Ensures informant.responder (fun children' _ s' ↦
      children' = children.map informant.completed ∧ s'.objects = s.objects) trace s := by
  induction children generalizing trace s with
  | nil => exact Task.ensures_pure ⟨rfl, rfl⟩
  | cons child rest ih =>
    refine Task.ensures_bind (ensures_completeChild child trace s) ?_
    rintro _ trace₁ s₁ ⟨rfl, hobjects₁⟩
    refine Task.ensures_bind (ih trace₁ s₁) ?_
    rintro _ trace₂ s₂ ⟨rfl, hobjects₂⟩
    exact Task.ensures_pure ⟨rfl, hobjects₂.trans hobjects₁⟩

theorem ensures_storeChildren {name : String} {children : List Variable} {objects : VariableTable}
    (h : s.objects.setChildren name children = .ok objects) :
    (storeChildren name children).run.Ensures informant.responder
      (fun result _ s' ↦ result = .ok children ∧ s'.objects = objects) trace s := by
  unfold storeChildren
  refine Operation.ensures_bind (P := fun result _ s' ↦ result = .ok () ∧ s'.objects = objects) ?_
    ?_ (by simp)
  · refine Task.ensures_step ?_
    rw [h]
    exact ⟨rfl, rfl⟩
  · rintro _ _ s₁ ⟨-, hstored⟩
    exact Task.ensures_pure ⟨rfl, hstored⟩

/-- Listing children of an object that has none yet stores them, in the order of the debugger. -/
theorem ensures_listChildren {v : Variable} {children : List Variable}
    (hlisting : informant.listing v.name = .ok children) (hget : s.objects.get? v.name = some v)
    (hchildless : v.children = none) :
    (listChildren v.name).run.Ensures informant.responder (fun result _ s' ↦
      result = .ok children ∧ s'.objects = s.objects.addChildren v.name children) trace s := by
  unfold Informant.listing at hlisting
  refine Operation.ensures_bind (Operation.ensures_request _) ?_ ?_
  swap
  · rintro e _ s₁ ⟨hanswer, -, -⟩
    have hanswer : informant (Request.varListChildren v.name .allValues).command = .error e :=
      hanswer.symm
    rw [hanswer] at hlisting
    nomatch hlisting
  rintro response trace₁ s₁ ⟨hanswer, -, hquiet⟩
  have hanswer : informant (Request.varListChildren v.name .allValues).command = .ok response :=
    hanswer.symm
  rw [hanswer] at hlisting
  obtain rfl := Except.ok.inj hlisting
  refine Operation.ensures_bind_lift (ensures_completeChildren _ trace₁ s₁) ?_
  rintro _ trace₂ s₂ ⟨rfl, hsame⟩
  have hobjects : s₂.objects = s.objects := hsame.trans (holdings_eq_iff.mp hquiet).2.1
  rw [← hobjects]
  exact ensures_storeChildren
    (VariableTable.setChildren_of_childless _ (hobjects ▸ hget) hchildless)

end Session

end DebugLink
