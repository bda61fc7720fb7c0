import DebugLink.Proofs.Session.Accounts
import DebugLink.Proofs.Table.Numbered

/-!
Tasks that run at the same time. A command with its answer is one step, and so is every change of
the session; between two steps of one task others may take theirs, and the rest of the session may
change as it likes (`Interleaving`).

A task is said to spare a watch that was removed (`Task.Spares`) if none of its steps registers the
watch again or brings up an object with one of its roots. What all tasks spare stays away; so once
one of them has cleared an object away, it is gone for good (`Interleaving.cleared`).
-/

set_option autoImplicit false

namespace DebugLink

open Variable

variable {α β : Type} {s s₁ s' : Session} {trace : List Exchange}

/-! ### Steps -/

namespace Task

/-- One step of a task: a change of the session, or an exchange. -/
inductive Steps : Task α → Session → Option Exchange → Task α → Session → Prop
  | act {change : Session → Session} {next : Session → Task α} {s : Session} :
      Steps (act change next) s none (next s) (change s)
  | exchange {command : Command} {next : Except SessionError Response → Task α} {s : Session}
      (answer : Except SessionError Response) :
      Steps (exchange command next) s (some ⟨command, answer⟩) (next answer) s

end Task

/-- One task and others take their steps in any order until all are done. -/
inductive Interleaving : Task α → List (Task β) → Session → List Exchange → α → List β → Session →
    Prop
  | done (value : α) (values : List β) (s : Session) :
      Interleaving (.done value) (values.map .done) s [] value values s
  /-- Anything may happen to the session except to what it holds. -/
  | idle {task : Task α} {others : List (Task β)} {s s₁ s' : Session} {trace : List Exchange}
      {value : α} {values : List β} (hquiet : s₁.holdings = s.holdings)
      (hrest : Interleaving task others s₁ trace value values s') :
      Interleaving task others s trace value values s'
  | first {task task' : Task α} {others : List (Task β)} {s s₁ s' : Session}
      {step : Option Exchange} {trace : List Exchange} {value : α} {values : List β}
      (hstep : task.Steps s step task' s₁)
      (hrest : Interleaving task' others s₁ trace value values s') :
      Interleaving task others s (step.toList ++ trace) value values s'
  | other {task : Task α} {job job' : Task β} {others : List (Task β)} {s s₁ s' : Session}
      {step : Option Exchange} {trace : List Exchange} {value : α} {values : List β} (turn : Nat)
      (hturn : others[turn]? = some job) (hstep : job.Steps s step job' s₁)
      (hrest : Interleaving task (others.set turn job') s₁ trace value values s') :
      Interleaving task others s (step.toList ++ trace) value values s'

/-! ### Sparing a watch -/

/-- No object goes with a root. -/
def Gone (root : String) (s : Session) : Prop :=
  ∀ name ∈ s.objects.known, rootOf name ≠ root

/-- After a step a watch is not registered, and no object of the given roots has come up. -/
structure Spared (id : Nat) (roots : List String) (s s' : Session) : Prop where
  removed : s'.watches.get? id = none
  gone : ∀ name ∈ s'.objects.known, rootOf name ∈ roots → name ∈ s.objects.known

/-- What is expected of the debugger by those who spare objects of the given roots. -/
structure Exchange.Fits (roots : List String) (exchange : Exchange) : Prop where
  proper : exchange.Proper
  fresh : ∀ name ∈ exchange.created?, name ∉ roots

variable {id : Nat} {roots : List String} {root : String}

namespace Spared

theorem of_subset (hremoved : s'.watches.get? id = none)
    (hsubset : s'.objects.known ⊆ s.objects.known) : Spared id roots s s' :=
  ⟨hremoved, fun _ hname _ ↦ hsubset hname⟩

theorem gone_of_gone (h : Spared id roots s s') (hroot : root ∈ roots) (hgone : Gone root s) :
    Gone root s' :=
  fun name hname heq ↦ hgone name (h.gone name hname (heq ▸ hroot)) heq

end Spared

namespace Task

/-- A task spares a watch that is not registered and has the given roots; and so much holds of the
value of the task. -/
def Spares (id : Nat) (roots : List String) (post : α → Prop) : Task α → Prop
  | done value => post value
  | act change next => ∀ s, s.watches.get? id = none →
      Spared id roots s (change s) ∧ (next s).Spares id roots post
  | exchange command next => ∀ answer, Exchange.Fits roots ⟨command, answer⟩ →
      (next answer).Spares id roots post
  | endless => True

/-- A task clears away all objects that go with a root before it is done. -/
def Clears (root : String) : Task α → Prop
  | done _ => False
  | act change next => ∀ s, Gone root (change s) ∨ (next s).Clears root
  | exchange command next => ∀ answer, Exchange.Proper ⟨command, answer⟩ →
      (next answer).Clears root
  | endless => True

section Rules

variable {post P : α → Prop} {Q : β → Prop}

theorem Spares.mono {task : Task α} (h : task.Spares id roots P)
    (himp : ∀ value, P value → post value) : task.Spares id roots post := by
  induction task with
  | done value => exact himp value h
  | act change next ih => exact fun s hs ↦ (h s hs).imp_right (ih s)
  | exchange command next ih => exact fun answer hfits ↦ ih answer (h answer hfits)
  | endless => trivial

theorem spares_bind {task : Task α} {f : α → Task β} (h : task.Spares id roots P)
    (hf : ∀ value, P value → (f value).Spares id roots Q) : (task >>= f).Spares id roots Q := by
  show (task.bind f).Spares id roots Q
  induction task with
  | done value => exact hf value h
  | act change next ih => exact fun s hs ↦ (h s hs).imp_right (ih s)
  | exchange command next ih => exact fun answer hfits ↦ ih answer (h answer hfits)
  | endless => trivial

theorem spares_pure {value : α} (h : post value) : (pure value : Task α).Spares id roots post :=
  h

theorem spares_query {f : Session → α} (h : ∀ s, s.watches.get? id = none → post (f s)) :
    (query f).Spares id roots post :=
  fun s hs ↦ ⟨.of_subset hs (List.Subset.refl _), h s hs⟩

theorem spares_step {f : Session → α × Session}
    (h : ∀ s, s.watches.get? id = none → Spared id roots s (f s).2 ∧ post (f s).1) :
    (step f).Spares id roots post :=
  h

theorem spares_update {f : Session → Session} {post : Unit → Prop}
    (h : ∀ s, s.watches.get? id = none → Spared id roots s (f s)) (hpost : post ()) :
    (update f).Spares id roots post :=
  fun s hs ↦ ⟨h s hs, hpost⟩

theorem spares_forM {f : α → Task Unit} {items : List α}
    (h : ∀ item ∈ items, (f item).Spares id roots fun _ ↦ True) :
    (items.forM f).Spares id roots fun _ ↦ True := by
  induction items with
  | nil => exact trivial
  | cons item rest ih =>
    exact spares_bind (h item List.mem_cons_self) fun _ _ ↦
      ih fun other hother ↦ h other (List.mem_cons_of_mem _ hother)

theorem Clears.bind {task : Task α} (h : task.Clears root) (f : α → Task β) :
    (task >>= f).Clears root := by
  show (task.bind f).Clears root
  induction task with
  | done value => exact h.elim
  | act change next ih => exact fun s ↦ (h s).imp_right (ih s)
  | exchange command next ih => exact fun answer hproper ↦ ih answer (h answer hproper)
  | endless => trivial

theorem clears_bind (task : Task α) {f : α → Task β} (h : ∀ value, (f value).Clears root) :
    (task >>= f).Clears root := by
  show (task.bind f).Clears root
  induction task with
  | done value => exact h value
  | act change next ih => exact fun s ↦ .inr (ih s)
  | exchange command next ih => exact fun answer _ ↦ ih answer
  | endless => trivial

end Rules

/-- What one step of a task that spares a watch does. -/
theorem Steps.spares {post : α → Prop} {task task' : Task α} {step : Option Exchange}
    (hstep : task.Steps s step task' s') (h : task.Spares id roots post)
    (hremoved : s.watches.get? id = none) (hfits : ∀ exchange ∈ step, exchange.Fits roots) :
    Spared id roots s s' ∧ task'.Spares id roots post := by
  cases hstep with
  | act => exact h s hremoved
  | exchange answer => exact ⟨.of_subset hremoved (List.Subset.refl _), h answer (hfits _ rfl)⟩

/-- What one step of a task that clears objects away does. -/
theorem Steps.clears {task task' : Task α} {step : Option Exchange}
    (hstep : task.Steps s step task' s') (h : task.Clears root)
    (hproper : ∀ exchange ∈ step, exchange.Proper) : Gone root s' ∨ task'.Clears root := by
  cases hstep with
  | act => exact h s
  | exchange answer => exact .inr (h answer (hproper _ rfl))

end Task

/-- What all tasks spare stays away, and what one of them clears away is gone in the end. -/
theorem Interleaving.cleared {task : Task α} {others : List (Task β)} {value : α} {values : List β}
    {P : α → Prop} {Q : β → Prop} (h : Interleaving task others s trace value values s')
    (hfits : ∀ exchange ∈ trace, exchange.Fits roots) (hremoved : s.watches.get? id = none)
    (htask : task.Spares id roots P) (hothers : ∀ job ∈ others, job.Spares id roots Q)
    (hclears : ∀ root ∈ roots, Gone root s ∨ task.Clears root) :
    s'.watches.get? id = none ∧ P value ∧ ∀ root ∈ roots, Gone root s' := by
  induction h with
  | done => exact ⟨hremoved, htask, fun root hroot ↦ (hclears root hroot).resolve_right fun h ↦ h⟩
  | idle hquiet _ ih =>
    obtain ⟨-, hobjects, hwatches, -⟩ := Session.holdings_eq_iff.mp hquiet
    refine ih hfits (hwatches ▸ hremoved) htask hothers fun root hroot ↦ ?_
    exact (hclears root hroot).imp_left fun hgone ↦ by rwa [Gone, hobjects]
  | first hstep _ ih =>
    have hnow := fun exchange hmem ↦
      hfits exchange (List.mem_append_left _ (Option.mem_toList.mpr hmem))
    obtain ⟨hspared, htask'⟩ := hstep.spares htask hremoved hnow
    refine ih (fun exchange hmem ↦ hfits exchange (List.mem_append_right _ hmem)) hspared.removed
      htask' hothers fun root hroot ↦ ?_
    rcases hclears root hroot with hgone | hclears
    · exact .inl (hspared.gone_of_gone hroot hgone)
    · exact hstep.clears hclears fun exchange hmem ↦ (hnow exchange hmem).proper
  | other turn hturn hstep _ ih =>
    have hnow := fun exchange hmem ↦
      hfits exchange (List.mem_append_left _ (Option.mem_toList.mpr hmem))
    obtain ⟨hspared, hjob⟩ := hstep.spares (hothers _ (List.mem_of_getElem? hturn)) hremoved hnow
    refine ih (fun exchange hmem ↦ hfits exchange (List.mem_append_right _ hmem)) hspared.removed
      htask (fun job hmem ↦ ?_) fun root hroot ↦ ?_
    · rcases List.mem_or_eq_of_mem_set hmem with hold | rfl
      · exact hothers job hold
      · exact hjob
    · exact (hclears root hroot).imp_left (hspared.gone_of_gone hroot)

end DebugLink
