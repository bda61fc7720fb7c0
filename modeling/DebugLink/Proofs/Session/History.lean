import DebugLink.Proofs.Session.Adding
import DebugLink.Proofs.Session.Ownership
import DebugLink.Proofs.Session.Updating

/-!
Histories: watches are added, removed and updated one after another. Each of the three keeps every
object with the watch that holds it (`History.kept`), where a rebuild that fails makes its watch
stale. What callers do with watches is a history (`History.of_operations`). As long as no rebuild
fails, the root objects are exactly those of the registered watches, and adding and removing a watch
leaves no trace (`History.owned`). With a failed rebuild that is not so: the watch stays registered
and its derived objects are gone (`History.not_always_known`). Watches without one never name an
object that is not there (`History.known_unless_stale`).
-/

set_option autoImplicit false

namespace DebugLink

open Variable Session

variable {exact : Prop} {stale : List Nat} {used used' : List String} {s s' : Session}
  {depth id : Nat} {trace : List Exchange}

/-! ### Rebuilds -/

/-- Which watches are stale after a rebuild. -/
def noteOutcome (stale : List Nat) : Nat × Except SessionError Unit → List Nat
  | (id, .ok _) => stale.filter (· ≠ id)
  | (id, .error _) => id :: stale

/-- What is live on an account was created. -/
theorem Accounts.live_subset {start s : Session} {live : List String}
    (h : Accounts start trace s live) : live ⊆ created trace :=
  fun _ hname ↦ h.balance.mem_iff.mpr (List.mem_append_right _ hname)

namespace Kept

/-- A rebuild that succeeds ends what made its watch stale, and one that fails makes it stale. No
other watch is touched, and no number is used up. -/
theorem rebuild {result : Except SessionError Unit} (hk : Kept exact stale used s.holdings)
    (hrun : (rebuildWatch depth id).run.Runs s trace result s') (hconf : Conforms used trace) :
    Kept exact (noteOutcome stale (id, result)) (used ++ created trace) s'.holdings ∧
      (s'.watches.remove id).2 = (s.watches.remove id).2 ∧ s'.nextWatch = s.nextWatch := by
  rcases rebuildWatch_cases hrun (hk.conforms hconf) hk.orderly with ⟨hnone, rfl, hcreated, rfl⟩ |
    ⟨old, s₁, before, after, hget, rfl, hcreated, hheld, hcases⟩
  · rw [hcreated, List.append_nil]
    refine ⟨hk.of_stale_iff (fun other hother ↦ hk.staleNext other (List.mem_of_mem_filter hother))
      fun entry hentry ↦ ?_, rfl, rfl⟩
    simp [noteOutcome, NumberedTable.get?_eq_none_iff.mp hnone entry hentry]
  · have hstripped : Kept exact (id :: stale) used s₁.holdings := by
      rw [hheld]
      exact hk.strip hget
    have hwatches : s₁.watches = s.watches := congrArg Holdings.watches hheld
    have hnext : s₁.nextWatch = s.nextWatch := congrArg Holdings.nextWatch hheld
    have hold : s₁.watches.get? id = some old := hwatches ▸ hget
    have hconf := hconf.tail (List.Subset.refl _)
    rw [created_append, hcreated, List.nil_append]
    rcases hcases with ⟨e, rfl, hsame⟩ | ⟨w, s₂, rfl, hvar, hacc, hstands, rfl⟩
    · obtain ⟨-, -, hwatches', hnext'⟩ := holdings_eq_iff.mp hsame
      refine ⟨hsame ▸ hstripped.mono (List.subset_append_left _ _), ?_, hnext'.trans hnext⟩
      rw [hwatches', hwatches]
    · have hlive := hacc.live_subset
      have hfresh : w.derivedRoots.Disjoint used := fun root hroot hused ↦
        hconf.notMem_created hused (hacc.grown.roots root hroot) (hlive hroot)
      have hrestored := hstripped.restore hold hvar hacc.grown (hacc.orderly hstripped.orderly)
        hstands (hacc.nodup hconf) hfresh (List.subset_append_left used (created after))
        (List.Subset.trans hlive (List.subset_append_right _ _))
      have hresult : ({ s₂ with watches := (s₂.watches.insert id w).2 } : Session).holdings =
          { s₁.holdings with objects := s₂.objects, watches := (s₁.watches.insert id w).2 } := by
        rw [← hacc.watches_eq]
        exact congrArg (fun h : Holdings ↦ { h with watches := (s₂.watches.insert id w).2 })
          hacc.others
      refine ⟨hresult ▸ hrestored, ?_, hacc.nextWatch_eq.trans hnext⟩
      show WatchRegistry.mk ((s₂.watches.watches.insert id w).erase id) = _
      rw [NumberedTable.erase_insert, hacc.watches_eq, hwatches]
      rfl

theorem rebuildEach {ids : List Nat} {outcomes : Outcomes} (hk : Kept exact stale used s.holdings)
    (hrun : (Session.rebuildEach depth ids).Runs s trace outcomes s')
    (hconf : Conforms used trace) :
    Kept exact (outcomes.foldl noteOutcome stale) (used ++ created trace) s'.holdings ∧
      (∀ id, (∀ outcome ∈ outcomes, outcome.1 = id) →
        (s'.watches.remove id).2 = (s.watches.remove id).2) ∧ s'.nextWatch = s.nextWatch := by
  induction ids generalizing stale used s trace outcomes with
  | nil =>
    obtain ⟨rfl, rfl, rfl⟩ := Task.runs_pure_iff.mp hrun
    exact ⟨hk.mono (List.subset_append_left _ _), fun _ _ ↦ rfl, rfl⟩
  | cons id rest ih =>
    obtain ⟨before, result, s₁, after, rfl, hfirst, hothers⟩ := Task.runs_bind_iff.mp hrun
    obtain ⟨middle, others, s₂, last, rfl, hrest, hlast⟩ := Task.runs_bind_iff.mp hothers
    obtain ⟨rfl, rfl, rfl⟩ := Task.runs_pure_iff.mp hlast
    rw [List.append_nil] at hconf ⊢
    rw [created_append, ← List.append_assoc]
    obtain ⟨hone, hremoved, hnext⟩ := hk.rebuild hfirst hconf.left
    obtain ⟨hall, hothers, hnext'⟩ := ih hone hrest hconf.rest
    refine ⟨hall, fun number honly ↦ ?_, hnext'.trans hnext⟩
    obtain rfl : id = number := honly (id, result) List.mem_cons_self
    exact (hothers id fun outcome hmem ↦ honly outcome (List.mem_cons_of_mem _ hmem)).trans hremoved

/-! ### Change lists -/

theorem applyChanges {h : Holdings} {changes : List Fields} (hk : Kept exact stale used h)
    (hvalues : exact → ∀ change ∈ changes, VariableTable.ValueOnly change) :
    Kept exact stale used { h with objects := (Session.applyChanges changes h.objects).2 } := by
  induction changes generalizing h with
  | nil => exact hk
  | cons change rest ih =>
    have hone : Kept exact stale used { h with objects := (h.objects.applyUpdate change).2 } :=
      hk.change (hk.orderly.applyUpdate change) (VariableTable.known_applyUpdate_subset _ change)
        (fun _ hname ↦ VariableTable.mem_known_applyUpdate hk.orderly change hname)
        fun hexact ↦ VariableTable.known_applyUpdate_of_valueOnly _
          (hvalues hexact change List.mem_cons_self)
    exact ih hone fun hexact other hother ↦ hvalues hexact other (List.mem_cons_of_mem _ hother)

end Kept

/-- Whether an exchange brings changes of values and scopes only. -/
def Exchange.ValuesOnly (exchange : Exchange) : Prop :=
  match exchange.answer with
  | .ok response => exchange.command.operation = "-var-update" →
      ∀ change ∈ response.fields.tuples "changelist", VariableTable.ValueOnly change
  | .error _ => True

instance (change : Fields) : Decidable (VariableTable.ValueOnly change) :=
  inferInstanceAs (Decidable (_ ∧ _))

instance (exchange : Exchange) : Decidable exchange.ValuesOnly :=
  match exchange with
  | ⟨_, .ok _⟩ => inferInstanceAs (Decidable (_ → ∀ _ ∈ _, VariableTable.ValueOnly _))
  | ⟨_, .error _⟩ => instDecidableTrue

/-! ### Activities -/

/-- Something done with watches, and how it ended. -/
inductive Activity
  | added (expression : String) (result : Except SessionError Nat)
  | removed (id : Nat) (result : Except SessionError Bool)
  | updated (result : Except SessionError (List Variable × Outcomes))

namespace Activity

/-- How the rebuilds ended that were part of it. -/
def outcomes : Activity → Outcomes
  | updated (.ok (_, outcomes)) => outcomes
  | _ => []

/-- An update that rebuilds no watch but the given one, and that with success. -/
def RebuildsOnly (id : Nat) (activity : Activity) : Prop :=
  ∃ result, activity = updated result ∧
    ∀ outcome ∈ activity.outcomes, outcome.1 = id ∧ outcome.2.isOk

/-- What it does to a session when nothing else is under way. -/
def Runs (depth : Nat) (s : Session) (trace : List Exchange) (s' : Session) : Activity → Prop
  | added expression result => (addWatch depth expression).run.Runs s trace result s'
  | removed id result => (removeWatch id).run.Runs s trace result s'
  | updated result => (updateNoting depth).run.Runs s trace result s'

end Activity

namespace Kept

theorem update {result : Except SessionError (List Variable × Outcomes)}
    (hk : Kept exact stale used s.holdings) (hrun : (updateNoting depth).run.Runs s trace result s')
    (hconf : Conforms used trace) (hvalues : exact → ∀ exchange ∈ trace, exchange.ValuesOnly) :
    Kept exact ((Activity.updated result).outcomes.foldl noteOutcome stale) (used ++ created trace)
        s'.holdings ∧
      (∀ id, (∀ outcome ∈ (Activity.updated result).outcomes, outcome.1 = id) →
        (s'.watches.remove id).2 = (s.watches.remove id).2) ∧ s'.nextWatch = s.nextWatch := by
  rcases updateNoting_cases hrun with ⟨e, rfl, hcreated, hsame⟩ |
    ⟨response, updated, outcomes, ids, after, s₁, s₂, rfl, rfl, hheld, hrebuild, hsame⟩
  · rw [hcreated, List.append_nil, hsame]
    obtain ⟨-, -, hwatches, hnext⟩ := holdings_eq_iff.mp hsame
    exact ⟨hk, fun _ _ ↦ by rw [hwatches], hnext⟩
  · have hchanged : Kept exact stale used s₁.holdings := by
      rw [hheld]
      exact hk.applyChanges fun hexact ↦ hvalues hexact _ List.mem_cons_self rfl
    have hwatches : s₁.watches = s.watches := congrArg Holdings.watches hheld
    have hafter : Conforms used after :=
      (show Conforms used ([_] ++ after) from hconf).tail (List.Subset.refl _)
    obtain ⟨hkept, hothers, hnext⟩ := hchanged.rebuildEach hrebuild hafter
    obtain ⟨-, -, hwatches', hnext'⟩ := holdings_eq_iff.mp hsame
    have hnext₁ : s₁.nextWatch = s.nextWatch := congrArg Holdings.nextWatch hheld
    refine ⟨hsame ▸ hkept, fun id honly ↦ ?_, hnext'.trans (hnext.trans hnext₁)⟩
    rw [hwatches', hothers id honly, hwatches]

/-- Whatever is done with watches, every object stays with the watch that holds it. -/
theorem activity {activity : Activity} (hk : Kept exact stale used s.holdings)
    (hrun : activity.Runs depth s trace s') (hconf : Conforms used trace)
    (hvalues : exact → ∀ exchange ∈ trace, exchange.ValuesOnly) :
    Kept exact (activity.outcomes.foldl noteOutcome stale) (used ++ created trace) s'.holdings := by
  have hmore : used ⊆ used ++ created trace := List.subset_append_left _ _
  cases activity with
  | added expression result =>
    rcases addWatch_cases hrun (hk.conforms hconf) with
      ⟨e, rfl, hacc⟩ | ⟨w, s₁, hacc, hstands, rfl, rfl⟩
    · rw [hacc.holdings_eq]
      exact hk.mono hmore
    · have hlive := hacc.live_subset
      have hfresh : w.roots.Disjoint used := fun root hroot hused ↦
        hconf.notMem_created hused (hacc.grown.roots root hroot) (hlive hroot)
      have hregistered := hk.register hacc.grown (hacc.orderly hk.orderly) hstands
        (hacc.nodup hconf) hfresh hmore (List.Subset.trans hlive (List.subset_append_right _ _))
      have hresult : (s₁.registerWatch w).2.holdings = { s.holdings with
          objects := s₁.objects
          watches := (s.watches.insert s.nextWatch w).2
          nextWatch := s.nextWatch + 1 } := by
        rw [← hacc.watches_eq, ← hacc.nextWatch_eq]
        exact congrArg (fun h : Holdings ↦ { h with
          watches := (s₁.watches.insert s₁.nextWatch w).2
          nextWatch := s₁.nextWatch + 1 }) hacc.others
      rw [hresult]
      exact hregistered
  | removed id result =>
    obtain ⟨-, hcases⟩ := removeWatch_cases hrun hconf.proper
    rcases hcases with ⟨hnone, rfl, hheld⟩ | ⟨w, hget, rfl, -, hheld⟩
    · rw [hheld, WatchRegistry.remove, NumberedTable.erase_of_get?_eq_none hnone]
      exact hk.mono hmore
    · rw [hheld]
      exact (hk.remove hget).mono hmore
  | updated result => exact (hk.update hrun hconf hvalues).1

/-- Only adding a watch uses up a number, and only one. -/
theorem nextWatch_le {activity : Activity} (hk : Kept exact stale used s.holdings)
    (hrun : activity.Runs depth s trace s') (hconf : Conforms used trace)
    (hvalues : exact → ∀ exchange ∈ trace, exchange.ValuesOnly) :
    s'.nextWatch ≤ s.nextWatch + 1 := by
  cases activity with
  | added expression result =>
    rcases addWatch_cases hrun (hk.conforms hconf) with ⟨e, -, hacc⟩ | ⟨w, s₁, hacc, -, -, rfl⟩
    · exact hacc.nextWatch_eq.le.trans (Nat.le_succ _)
    · exact (congrArg Nat.succ hacc.nextWatch_eq).le
  | removed id result =>
    obtain ⟨-, ⟨-, -, hheld⟩ | ⟨w, -, -, -, hheld⟩⟩ := removeWatch_cases hrun hconf.proper
    all_goals exact (congrArg Holdings.nextWatch hheld).le.trans (Nat.le_succ _)
  | updated result =>
    exact (hk.update hrun hconf hvalues).2.2.le.trans (Nat.le_succ _)

/-! ### What is kept, read off -/

/-- With no stale watches the root objects are those that the watches hold. -/
theorem mem_roots_iff {h : Holdings} {name : String} (hk : Kept exact [] used h) :
    (name ∈ h.entries.flatMap fun entry ↦ entry.2.roots) ↔
      isRootName name ∧ name ∈ h.objects.known := by
  have hheld : ∀ entry, heldRoots [] entry = entry.2.roots :=
    fun _ ↦ heldRoots_of_notMem List.not_mem_nil
  constructor
  · intro hmem
    obtain ⟨entry, hentry, hroot⟩ := List.mem_flatMap.mp hmem
    exact ⟨(hk.used entry hentry name hroot).2, hk.held entry hentry name (hheld entry ▸ hroot)⟩
  · rintro ⟨hroot, hname⟩
    obtain ⟨entry, hentry, hmem⟩ := hk.roots name hname
    rw [rootOf_eq_self hroot, hheld] at hmem
    exact List.mem_flatMap.mpr ⟨entry, hentry, hmem⟩

/-- The root objects are determined by the watches. -/
theorem mem_known_iff_of_watches_eq {h h' : Holdings} {name : String} (hk : Kept exact [] used h)
    (hk' : Kept exact [] used' h') (hwatches : h'.watches = h.watches) (hroot : isRootName name) :
    name ∈ h'.objects.known ↔ name ∈ h.objects.known := by
  have hentries : h'.entries = h.entries := congrArg (·.watches.entries) hwatches
  have hsame : isRootName name ∧ name ∈ h'.objects.known ↔
      isRootName name ∧ name ∈ h.objects.known := by
    rw [← hk'.mem_roots_iff, ← hk.mem_roots_iff, hentries]
  simpa [hroot] using hsame

/-- Nothing is left of the derived objects of a stale watch. -/
theorem notMem_of_stale {h : Holdings} {w : Watch} {root : String} (hk : Kept exact stale used h)
    (hget : h.watches.get? id = some w) (hstale : id ∈ stale) (hroot : root ∈ w.derivedRoots) :
    root ∉ h.objects.known := by
  intro hmem
  have hself := hk.used _ (hk.mem_entries hget) root (List.mem_cons_of_mem _ hroot)
  obtain ⟨entry, hentry, hheld⟩ := hk.roots root hmem
  rw [rootOf_eq_self hself.2] at hheld
  by_cases hid : entry.1 = id
  · rw [hk.eq_of_mem hget hentry hid, heldRoots_of_mem hstale, List.mem_singleton] at hheld
    have hnodup : w.roots.Nodup := (hk.nodup_roots hget).of_append_left
    exact (List.nodup_cons.mp hnodup).1 (hheld ▸ hroot)
  · exact hk.disjoint hget hentry hid (heldRoots_subset stale entry hheld)
      (List.mem_cons_of_mem _ hroot)

end Kept

/-! ### Histories -/

/-- Activities one after another. Between two of them anything may happen to the session except to
what it holds. -/
inductive History (depth : Nat) : Session → List Activity → List Exchange → Session → Prop
  | nil (s : Session) : History depth s [] [] s
  | cons {s s₁ s₂ s' : Session} {activity : Activity} {rest : List Activity}
      {before after : List Exchange} (hquiet : s₁.holdings = s.holdings)
      (hrun : activity.Runs depth s₁ before s₂) (hrest : History depth s₂ rest after s') :
      History depth s (activity :: rest) (before ++ after) s'

/-- Something to be done with watches. -/
inductive Deed
  | add (expression : String)
  | remove (id : Nat)
  | update

/-- The operation that does it, however it ends. -/
def Deed.operation (depth : Nat) : Deed → Task Unit
  | add expression => do let _ ← (addWatch depth expression).run
  | remove id => do let _ ← (removeWatch id).run
  | update => do let _ ← (updateObjects depth).run

/-- Does it, and notes how it ends. -/
def Deed.perform (depth : Nat) : Deed → Task Activity
  | add expression => do return .added expression (← (addWatch depth expression).run)
  | remove id => do return .removed id (← (removeWatch id).run)
  | update => do return .updated (← (updateNoting depth).run)

/-- Does one thing after another. -/
def performAll (depth : Nat) : List Deed → Task (List Activity)
  | [] => return []
  | deed :: rest => do
    let activity ← deed.perform depth
    let others ← performAll depth rest
    return activity :: others

namespace History

variable {activities earlier later : List Activity}

theorem nil_iff : History depth s [] trace s' ↔ trace = [] ∧ s' = s := by
  constructor
  · rintro ⟨⟩
    exact ⟨rfl, rfl⟩
  · rintro ⟨rfl, rfl⟩
    exact .nil s'

theorem cons_iff {activity : Activity} :
    History depth s (activity :: later) trace s' ↔ ∃ before after s₁ s₂, trace = before ++ after ∧
      s₁.holdings = s.holdings ∧ activity.Runs depth s₁ before s₂ ∧
        History depth s₂ later after s' := by
  constructor
  · rintro ⟨⟩
    exact ⟨_, _, _, _, rfl, ‹_›, ‹_›, ‹_›⟩
  · rintro ⟨before, after, s₁, s₂, rfl, hquiet, hrun, hrest⟩
    exact .cons hquiet hrun hrest

theorem append_iff :
    History depth s (earlier ++ later) trace s' ↔ ∃ before after s₁, trace = before ++ after ∧
      History depth s earlier before s₁ ∧ History depth s₁ later after s' := by
  induction earlier generalizing s trace with
  | nil =>
    constructor
    · exact fun h ↦ ⟨[], trace, s, rfl, .nil s, h⟩
    · rintro ⟨before, after, s₁, rfl, hfirst, hlast⟩
      obtain ⟨rfl, rfl⟩ := nil_iff.mp hfirst
      exact hlast
  | cons activity rest ih =>
    rw [List.cons_append, cons_iff]
    constructor
    · rintro ⟨before, after, s₁, s₂, rfl, hquiet, hrun, hrest⟩
      obtain ⟨middle, after, s₃, rfl, hmiddle, hlast⟩ := ih.mp hrest
      exact ⟨before ++ middle, after, s₃, (List.append_assoc _ _ _).symm, .cons hquiet hrun hmiddle,
        hlast⟩
    · rintro ⟨before, after, s₃, rfl, hfirst, hlast⟩
      obtain ⟨before, middle, s₁, s₂, rfl, hquiet, hrun, hmiddle⟩ := cons_iff.mp hfirst
      exact ⟨before, middle ++ after, s₁, s₂, List.append_assoc _ _ _, hquiet, hrun,
        ih.mpr ⟨middle, after, s₃, rfl, hmiddle, hlast⟩⟩

theorem of_runs {deeds : List Deed} (h : (performAll depth deeds).Runs s trace activities s') :
    History depth s activities trace s' := by
  induction deeds generalizing s trace activities with
  | nil =>
    obtain ⟨rfl, rfl, rfl⟩ := Task.runs_pure_iff.mp h
    exact .nil _
  | cons deed rest ih =>
    obtain ⟨before, activity, s₁, after, rfl, hfirst, hothers⟩ := Task.runs_bind_iff.mp h
    obtain ⟨middle, others, s₂, last, rfl, hrest, hlast⟩ := Task.runs_bind_iff.mp hothers
    obtain ⟨rfl, rfl, rfl⟩ := Task.runs_pure_iff.mp hlast
    have hrun : activity.Runs depth s before s₁ := by
      cases deed <;>
      · obtain ⟨_, result, _, _, rfl, hrun, hdone⟩ := Task.runs_bind_iff.mp hfirst
        obtain ⟨rfl, rfl, rfl⟩ := Task.runs_pure_iff.mp hdone
        rw [List.append_nil]
        exact hrun
    rw [List.append_nil]
    exact .cons rfl hrun (ih hrest)

/-- What an operation on watches does is an activity. -/
theorem exists_activity {deed : Deed} (h : (deed.operation depth).Runs s trace () s') :
    ∃ activity : Activity, activity.Runs depth s trace s' := by
  have hforget : ∀ {α : Type} {task : Task α},
      (task >>= fun _ ↦ pure ()).Runs s trace () s' → ∃ value, task.Runs s trace value s' := by
    intro α task hrun
    obtain ⟨before, value, s₁, after, rfl, hfirst, hlast⟩ := Task.runs_bind_iff.mp hrun
    obtain ⟨rfl, -, rfl⟩ := Task.runs_pure_iff.mp hlast
    exact ⟨value, by rwa [List.append_nil]⟩
  cases deed with
  | add expression =>
    obtain ⟨result, hrun⟩ := hforget h
    exact ⟨.added expression result, hrun⟩
  | remove id =>
    obtain ⟨result, hrun⟩ := hforget h
    exact ⟨.removed id result, hrun⟩
  | update =>
    obtain ⟨result, hrun⟩ := hforget h
    obtain ⟨noted, hnoted, -⟩ := runs_updateObjects_iff.mp hrun
    exact ⟨.updated noted, hnoted⟩

/-- Whatever callers do with watches, one thing after another, is a history. -/
theorem of_operations {deeds : List Deed}
    (h : (deeds.forM (Deed.operation depth)).Runs s trace () s') :
    ∃ activities, History depth s activities trace s' := by
  induction deeds generalizing s trace with
  | nil =>
    obtain ⟨rfl, -, rfl⟩ := Task.runs_pure_iff.mp h
    exact ⟨[], .nil _⟩
  | cons deed rest ih =>
    obtain ⟨before, _, s₁, after, rfl, hfirst, hlast⟩ := Task.runs_bind_iff.mp h
    obtain ⟨activity, hrun⟩ := exists_activity hfirst
    obtain ⟨activities, hrest⟩ := ih hlast
    exact ⟨activity :: activities, .cons rfl hrun hrest⟩

/-- The watches that could not be rebuilt when that was last tried. -/
def staleAfter (activities : List Activity) : List Nat :=
  (activities.flatMap Activity.outcomes).foldl noteOutcome []

/-- Every object stays with the watch that holds it, whatever is done with the watches. -/
theorem kept {stale : List Nat} (h : History depth s activities trace s')
    (hk : Kept exact stale used s.holdings) (hconf : Conforms used trace)
    (hvalues : exact → ∀ exchange ∈ trace, exchange.ValuesOnly) :
    Kept exact ((activities.flatMap Activity.outcomes).foldl noteOutcome stale)
      (used ++ created trace) s'.holdings := by
  induction h generalizing stale used with
  | nil => exact hk.mono (List.subset_append_left _ _)
  | @cons s s₁ s₂ s' activity rest before after hquiet hrun _ ih =>
    rw [created_append, ← List.append_assoc, List.flatMap_cons, List.foldl_append]
    have hone := (hquiet ▸ hk : Kept exact stale used s₁.holdings).activity hrun hconf.left
      fun hexact exchange hmem ↦ hvalues hexact exchange (List.mem_append_left _ hmem)
    exact ih hone hconf.rest
      fun hexact exchange hmem ↦ hvalues hexact exchange (List.mem_append_right _ hmem)

/-- No more numbers are used up than there were activities. -/
theorem nextWatch_le {stale : List Nat} (h : History depth s activities trace s')
    (hk : Kept exact stale used s.holdings) (hconf : Conforms used trace)
    (hvalues : exact → ∀ exchange ∈ trace, exchange.ValuesOnly) :
    s'.nextWatch ≤ s.nextWatch + activities.length := by
  induction h generalizing stale used with
  | nil => exact Nat.le_refl _
  | @cons s s₁ s₂ s' activity rest before after hquiet hrun _ ih =>
    have hquieted : Kept exact stale used s₁.holdings := hquiet ▸ hk
    have hbefore := fun hexact exchange hmem ↦
      hvalues hexact exchange (List.mem_append_left after hmem)
    have hone : s₂.nextWatch ≤ s₁.nextWatch + 1 := hquieted.nextWatch_le hrun hconf.left hbefore
    have hrest := ih (hquieted.activity hrun hconf.left hbefore) hconf.rest
      fun hexact exchange hmem ↦ hvalues hexact exchange (List.mem_append_right _ hmem)
    have hnext : s₁.nextWatch = s.nextWatch := (holdings_eq_iff.mp hquiet).2.2.2
    rw [List.length_cons]
    omega

/-- From the start on. -/
theorem kept_of_start {options : SessionOptions}
    (h : History depth (Session.start options) activities trace s) (hconf : Conforms [] trace)
    (hvalues : exact → ∀ exchange ∈ trace, exchange.ValuesOnly) :
    Kept exact (staleAfter activities) (created trace) s.holdings :=
  h.kept (Kept.start exact options) hconf hvalues

theorem staleAfter_eq_nil
    (h : ∀ activity ∈ activities, ∀ outcome ∈ activity.outcomes, outcome.2.isOk) :
    staleAfter activities = [] := by
  have hfold : ∀ outcomes : Outcomes, (∀ outcome ∈ outcomes, outcome.2.isOk) →
      outcomes.foldl noteOutcome [] = [] := by
    intro outcomes
    induction outcomes with
    | nil => exact fun _ ↦ rfl
    | cons outcome rest ih =>
      intro hok
      have hrest := ih fun other hother ↦ hok other (List.mem_cons_of_mem _ hother)
      obtain ⟨id, ⟨e⟩ | ⟨_⟩⟩ := outcome
      · exact absurd (hok _ List.mem_cons_self) Bool.false_ne_true
      · exact hrest
  refine hfold _ fun outcome hmem ↦ ?_
  obtain ⟨activity, hactivity, houtcome⟩ := List.mem_flatMap.mp hmem
  exact h activity hactivity outcome houtcome

/-- Rebuilding a watch does nothing to the other watches. -/
theorem remove_eq {stale : List Nat} (h : History depth s activities trace s')
    (hk : Kept False stale used s.holdings) (hconf : Conforms used trace)
    (honly : ∀ activity ∈ activities, activity.RebuildsOnly id) :
    (s'.watches.remove id).2 = (s.watches.remove id).2 := by
  induction h generalizing stale used with
  | nil => rfl
  | @cons s s₁ s₂ s' activity rest before after hquiet hrun _ ih =>
    obtain ⟨result, rfl, hone⟩ := honly activity List.mem_cons_self
    have hquieted : Kept False stale used s₁.holdings := hquiet ▸ hk
    obtain ⟨hkept, hothers, -⟩ := hquieted.update hrun hconf.left False.elim
    rw [ih hkept hconf.rest fun other hother ↦ honly other (List.mem_cons_of_mem _ hother),
      hothers id fun outcome hmem ↦ (hone outcome hmem).1,
      (holdings_eq_iff.mp hquiet).2.2.1]

/-- A watch that is added, rebuilt any number of times and removed leaves the other ones as they
were. -/
theorem watches_eq {stale : List Nat} {updates : List Activity} {expression : String}
    {result : Except SessionError Bool}
    (h : History depth s (.added expression (.ok id) :: updates ++ [.removed id result]) trace s')
    (hk : Kept False stale used s.holdings) (hconf : Conforms used trace)
    (honly : ∀ activity ∈ updates, activity.RebuildsOnly id) : s'.watches = s.watches := by
  rw [List.cons_append, cons_iff] at h
  obtain ⟨adding, rest, s₁, s₂, rfl, hquiet, hadd, hrest⟩ := h
  obtain ⟨updating, removing, s₃, rfl, hupdates, hlast⟩ := append_iff.mp hrest
  obtain ⟨removing, nothing, s₄, s₅, rfl, hquiet', hremove, hnil⟩ := cons_iff.mp hlast
  obtain ⟨rfl, rfl⟩ := nil_iff.mp hnil
  have hquieted : Kept False stale used s₁.holdings := hquiet ▸ hk
  have hadded := hquieted.activity hadd hconf.left False.elim
  rcases addWatch_cases hadd (hquieted.conforms hconf.left) with
    ⟨e, hfailed, -⟩ | ⟨w, s₆, hacc, -, hid, rfl⟩
  · nomatch hfailed
  obtain rfl := Except.ok.inj hid
  -- The number of the new watch is not in use, so removing it undoes the registration.
  have hfresh : s₁.watches.get? s₁.nextWatch = none :=
    NumberedTable.get?_eq_none_iff.mpr fun entry hentry ↦ Nat.ne_of_lt (hquieted.next entry hentry)
  have hregistered : ((s₆.registerWatch w).2.watches.remove s₁.nextWatch).2 = s.watches := by
    show WatchRegistry.mk ((s₆.watches.watches.insert s₆.nextWatch w).erase s₁.nextWatch) = _
    rw [hacc.nextWatch_eq, NumberedTable.erase_insert, hacc.watches_eq,
      NumberedTable.erase_of_get?_eq_none hfresh]
    exact (holdings_eq_iff.mp hquiet).2.2.1
  have hremoved : s'.watches = (s₄.watches.remove s₁.nextWatch).2 := by
    obtain ⟨-, ⟨-, -, hheld⟩ | ⟨w, -, -, -, hheld⟩⟩ :=
      removeWatch_cases hremove hconf.rest.rest.left.proper
    · exact congrArg Holdings.watches hheld
    · exact congrArg Holdings.watches hheld
  rw [hremoved, (holdings_eq_iff.mp hquiet').2.2.1,
    remove_eq hupdates hadded hconf.rest.left honly, hregistered]

/-- Watches own the root objects: as long as every rebuild succeeds, no object has two owners and
none has no owner. A watch that is added, rebuilt any number of times and removed leaves the same
root objects and the same watches. The numbers of watches go up by at most one with each activity,
so for fewer than `2 ^ 64` activities a counter of 64 bits gives out the same ones. -/
theorem owned {options : SessionOptions}
    (h : History depth (Session.start options) activities trace s) (hconf : Conforms [] trace)
    (hok : ∀ activity ∈ activities, ∀ outcome ∈ activity.outcomes, outcome.2.isOk) :
    (s.watches.watches.values.flatMap fun w ↦ w.var :: w.derivedRoots).Nodup ∧
    (∀ name, name ∈ (s.watches.watches.values.flatMap fun w ↦ w.var :: w.derivedRoots) ↔
      isRootName name ∧ name ∈ s.objects.known) ∧
    s.nextWatch ≤ activities.length + 1 ∧
    ∀ {expression id updates result after s'},
      History depth s (.added expression (.ok id) :: updates ++ [.removed id result]) after s' →
        Conforms [] (trace ++ after) → (∀ activity ∈ updates, activity.RebuildsOnly id) →
          s'.watches = s.watches ∧
            ∀ name, isRootName name → (name ∈ s'.objects.known ↔ name ∈ s.objects.known) := by
  have hheld : ∀ {activities trace s}, History depth (Session.start options) activities trace s →
      Conforms [] trace →
      (∀ activity ∈ activities, ∀ outcome ∈ activity.outcomes, outcome.2.isOk) →
        Kept False [] (created trace) s.holdings := by
    intro activities trace s h hconf hok
    have hk : Kept False _ _ s.holdings := h.kept_of_start hconf False.elim
    rwa [staleAfter_eq_nil hok] at hk
  have hroots : (s.watches.watches.values.flatMap fun w ↦ w.var :: w.derivedRoots) =
      s.holdings.entries.flatMap fun entry ↦ entry.2.roots :=
    List.flatMap_map Prod.snd Watch.roots s.holdings.entries
  have hk := hheld h hconf hok
  have hnext : s.nextWatch ≤ 1 + activities.length :=
    h.nextWatch_le (Kept.start False options) hconf False.elim
  refine ⟨hroots ▸ hk.distinct, fun name ↦ hroots ▸ hk.mem_roots_iff,
    hnext.trans (Nat.add_comm 1 _).le, ?_⟩
  intro expression id updates result after s' hafter hconf honly
  have hwatches : s'.watches = s.watches :=
    hafter.watches_eq hk hconf.rest honly
  have hk' := hheld (append_iff.mpr ⟨trace, after, s, rfl, h, hafter⟩) hconf ?_
  · refine ⟨hwatches, fun name hroot ↦ ?_⟩
    exact hk.mem_known_iff_of_watches_eq hk' hwatches hroot
  · intro activity hmem outcome houtcome
    simp only [List.cons_append, List.mem_append, List.mem_cons, List.not_mem_nil, or_false] at hmem
    rcases hmem with hold | rfl | hupdate | rfl
    · exact hok activity hold outcome houtcome
    · nomatch houtcome
    · obtain ⟨_, -, hone⟩ := honly activity hupdate
      exact (hone outcome houtcome).2
    · nomatch houtcome

/-- The answer to an update by which some values changed. -/
def changesOf (values : List (String × String)) : Except SessionError Response :=
  .ok ⟨1, "done", NamedTable.ofList [("changelist", .values (values.map fun (name, value) ↦
    .tuple (NamedTable.ofList [("name", .text name), ("value", .text value)])))]⟩

/-- A number and a vector are watched. The vector gets an element, by which its watch is rebuilt,
and this watch is removed. -/
theorem owned_of_rebuild : ∃ activities trace s updates result after s',
    History nestingLimit (Session.start .standard) activities trace s ∧
      History nestingLimit s (.added "v" (.ok 2) :: updates ++ [.removed 2 result]) after s' ∧
      (updates.flatMap Activity.outcomes).map Prod.fst = [2] ∧
      (∀ name, name ∈ (s.watches.watches.values.flatMap fun w ↦ w.var :: w.derivedRoots) ↔
        isRootName name ∧ name ∈ s.objects.known) ∧
      s'.watches = s.watches := by
  have hplay : ((performAll nestingLimit [.add "n"]).play [described "var1" "int" "1"]
      (Session.start .standard)).any fun (trace, activities, s) ↦
        ((addWatch nestingLimit "v").run.play [described "var2" "std::vector<int>" "{...}",
          described "var3" "long" "0"] s).any fun (adding, added, s) ↦
          ((updateNoting nestingLimit).run.play [changesOf [("var3", "1")], answered [],
            described "var4" "long" "1", described "var5" "int [1]" "{7}", answered []] s).any
            fun (updating, updated, s) ↦
            ((removeWatch 2).run.play [answered [], answered [], answered []] s).any
              fun (removing, _, _) ↦ decide (added.toOption = some 2 ∧
                Conforms [] (trace ++ (adding ++ (updating ++ (removing ++ [])))) ∧
                (∀ activity ∈ activities, ∀ outcome ∈ activity.outcomes, outcome.2.isOk) ∧
                (Activity.updated updated).outcomes.map Prod.fst = [2] ∧
                ∀ outcome ∈ (Activity.updated updated).outcomes,
                  outcome.1 = 2 ∧ outcome.2.isOk) := by
    decide +kernel
  obtain ⟨trace, activities, s, hbefore, hplay⟩ := Task.exists_runs_of_play hplay
  obtain ⟨adding, added, s₁, hadd, hplay⟩ := Task.exists_runs_of_play hplay
  obtain ⟨updating, updated, s₂, hupdate, hplay⟩ := Task.exists_runs_of_play hplay
  obtain ⟨removing, result, s', hremove, htest⟩ := Task.exists_runs_of_play hplay
  obtain ⟨hadded, hconf, hok, hids, hrebuilt⟩ := of_decide_eq_true htest
  cases added with
  | error e => exact absurd hadded (by simp [Except.toOption])
  | ok id =>
    obtain rfl := Option.some.inj hadded
    have hafter : History nestingLimit s
        (.added "v" (.ok 2) :: [.updated updated] ++ [.removed 2 result])
        (adding ++ (updating ++ (removing ++ []))) s' :=
      .cons rfl hadd (.cons rfl hupdate (.cons rfl hremove (.nil s')))
    obtain ⟨-, hroots, -, hround⟩ := owned (of_runs hbefore) hconf.left hok
    refine ⟨activities, trace, s, _, result, _, s', of_runs hbefore, hafter, ?_, hroots,
      (hround hafter hconf fun activity hmem ↦ ?_).1⟩
    · rwa [List.flatMap_singleton]
    · obtain rfl := List.mem_singleton.mp hmem
      exact ⟨updated, rfl, hrebuilt⟩

/-! ### Failed rebuilds -/

/-- Two watches, on a vector and on a number. The vector gets an element, the old object for its
length is deleted, and the debugger cannot make a new one. -/
theorem exists_failed_rebuild : ∃ activities trace s w w',
    History nestingLimit (Session.start .standard) activities trace s ∧ Conforms [] trace ∧
      (∀ exchange ∈ trace, exchange.ValuesOnly) ∧ staleAfter activities = [1] ∧
      s.watches.get? 1 = some w ∧ s.watches.get? 2 = some w' ∧ w.derivedRoots = ["var2"] ∧
      "var2" ∈ w.vars := by
  have hplay : ((performAll nestingLimit [.add "v", .add "n", .update]).play
      [described "var1" "std::vector<int>" "{...}", described "var2" "long" "0",
        described "var3" "int" "1", changesOf [("var2", "1")], answered [], .error (.command 5 "")]
      (Session.start .standard)).any fun (trace, activities, s) ↦
        decide (Conforms [] trace ∧ (∀ exchange ∈ trace, exchange.ValuesOnly) ∧
          staleAfter activities = [1] ∧ (s.watches.get? 2).isSome) &&
        (s.watches.get? 1).any fun w ↦ decide (w.derivedRoots = ["var2"] ∧ "var2" ∈ w.vars) := by
    decide +kernel
  obtain ⟨trace, activities, s, hrun, htest⟩ := Task.exists_runs_of_play hplay
  dsimp only at htest
  rw [Bool.and_eq_true, decide_eq_true_eq, Option.any_eq_true] at htest
  obtain ⟨⟨hconf, hvalues, hstale, hsome⟩, w, hget, hw⟩ := htest
  obtain ⟨w', hget'⟩ := Option.isSome_iff_exists.mp hsome
  obtain ⟨hroots, hvars⟩ := of_decide_eq_true hw
  exact ⟨activities, trace, s, w, w', of_runs hrun, hconf, hvalues, hstale, hget, hget', hroots,
    hvars⟩

/-- Where changes concern values and scopes only, the own object of a watch is always there, and so
is everything else that the watch reads as long as it could be rebuilt. After a failed rebuild none
of its derived objects is left. -/
theorem known_unless_stale {options : SessionOptions} {w : Watch}
    (h : History depth (Session.start options) activities trace s) (hconf : Conforms [] trace)
    (hvalues : ∀ exchange ∈ trace, exchange.ValuesOnly) (hget : s.watches.get? id = some w) :
    w.var ∈ s.objects.known ∧
      (id ∉ staleAfter activities → ∀ name ∈ w.vars, name ∈ s.objects.known) ∧
      (id ∈ staleAfter activities → ∀ root ∈ w.derivedRoots, root ∉ s.objects.known) := by
  have hk : Kept True _ _ s.holdings := h.kept_of_start hconf fun _ ↦ hvalues
  have hentry : (id, w) ∈ s.holdings.entries := hk.mem_entries hget
  exact ⟨hk.held _ hentry _ (var_mem_heldRoots _ _),
    fun hnot ↦ (hk.stands trivial _ hentry hnot).known,
    fun hstale _ ↦ hk.notMem_of_stale hget hstale⟩

/-- The watch that could be kept can be read; of the other one the length is gone. -/
theorem known_unless_stale_of_failed_rebuild : ∃ activities trace, ∃ (s : Session) (w w' : Watch),
    History nestingLimit (Session.start .standard) activities trace s ∧
    s.watches.get? 1 = some w ∧ s.watches.get? 2 = some w' ∧ w.var ∈ s.objects.known ∧
      w.derivedRoots = ["var2"] ∧ "var2" ∉ s.objects.known ∧
        ∀ name ∈ w'.vars, name ∈ s.objects.known := by
  obtain ⟨activities, trace, s, w, w', h, hconf, hvalues, hstale, hget, hget', hroots, -⟩ :=
    exists_failed_rebuild
  obtain ⟨hvar, -, hgone⟩ := known_unless_stale h hconf hvalues hget
  obtain ⟨-, hkept, -⟩ := known_unless_stale h hconf hvalues hget'
  have hlost : "var2" ∉ s.objects.known := hgone (by simp [hstale]) "var2" (by simp [hroots])
  exact ⟨activities, trace, s, w, w', h, hget, hget', hvar, hroots, hlost, hkept (by simp [hstale])⟩

/-- A registered watch may read an object that is not there. -/
theorem not_always_known :
    ¬∀ (activities : List Activity) (trace : List Exchange) (s : Session) (id : Nat) (w : Watch),
      History nestingLimit (Session.start .standard) activities trace s → Conforms [] trace →
        (∀ exchange ∈ trace, exchange.ValuesOnly) → s.watches.get? id = some w →
          ∀ name ∈ w.vars, name ∈ s.objects.known := by
  intro hclaim
  obtain ⟨activities, trace, s, w, w', h, hconf, hvalues, hstale, hget, -, hroots, hvars⟩ :=
    exists_failed_rebuild
  have hk : Kept True _ _ s.holdings := h.kept_of_start hconf fun _ ↦ hvalues
  have hlost : "var2" ∉ s.holdings.objects.known :=
    hk.notMem_of_stale hget (by simp [hstale]) (by simp [hroots])
  exact hlost (hclaim activities trace s 1 w h hconf hvalues hget "var2" hvars)

end History

end DebugLink
