import DebugLink.Proofs.Session.Accounts
import DebugLink.Session.Objects

/-!
What the operations on variable objects do to an account. An object that is created is live; if its
value cannot be had it is not (`Session.adds_createObject`). An object that is discarded is live no
more (`Session.owns_discardAll`). Listing children changes no account, because the children stand
below an object that is live (`Session.owns_listChildren`).
-/

set_option autoImplicit false

namespace DebugLink

open Variable

variable {start s s' s₁ : Session} {before trace : List Exchange} {live live' : List String}
  {known : List String} {name expression : String}

/-- The name of an object that was created is new as a root. -/
theorem Conforms.rootOf_ne (h : Conforms known trace) (hname : name ∈ created trace) :
    ∀ other ∈ known, rootOf other ≠ name :=
  fun other hother heq ↦ h.fresh other hother (heq ▸ hname)

namespace Accounts

theorem nothing (hcreated : created trace = []) (hdeleted : deleted trace = [])
    (hquiet : s'.holdings = s.holdings) : Accounts s trace s' [] := by
  have hobjects := (Session.holdings_eq_iff.mp hquiet).2.1
  refine ⟨by rw [hcreated, hdeleted, List.append_nil], ?_, ?_, by rw [hquiet, hobjects]; rfl⟩
  · rw [hobjects]
    exact .refl _
  · rw [hobjects]
    exact id

/-- An object that was created is stored. -/
theorem store {v : Variable} (hconf : Conforms s.objects.known trace)
    (hcreated : created trace = [v.name]) (hdeleted : deleted trace = [])
    (hchildless : v.children = none)
    (hstored : s'.holdings = { s.holdings with objects := s.objects.insert v }) :
    Accounts s trace s' [v.name] := by
  have hmem : v.name ∈ created trace := by simp [hcreated]
  have hobjects : s'.objects = s.objects.insert v := congrArg Holdings.objects hstored
  refine ⟨by rw [hcreated, hdeleted, List.nil_append], ?_, ?_, by rw [hstored, hobjects]⟩
  · rw [hobjects]
    exact .insert_root (hconf.isRootName_of_mem hmem) (hconf.rootOf_ne hmem)
  · rw [hobjects]
    exact fun horderly ↦ horderly.insert (by simp [Dotted, hchildless])

/-- An object that was created is discarded again, which leaves no mark. -/
theorem discarded (hconf : Conforms s.objects.known trace)
    (hcreated : created trace = [name]) (hdeleted : deleted trace = [name])
    (hgone : s'.holdings = { s.holdings with objects := s.objects.removeTree name }) :
    Accounts s trace s' [] := by
  have hmem : name ∈ created trace := by simp [hcreated]
  have hobjects : s'.objects = s.objects.removeTree name := congrArg Holdings.objects hgone
  refine ⟨by rw [hcreated, hdeleted, List.append_nil], ?_, ?_, by rw [hgone, hobjects]⟩
  · rw [hobjects]
    exact (VariableTable.Grown.refl s.objects).removeTree (hconf.isRootName_of_mem hmem)
      (hconf.rootOf_ne hmem)
  · rw [hobjects]
    exact fun horderly ↦ horderly.removeTree name

/-- An object that is live is discarded. -/
theorem discard {kept : List String} (h : Accounts start before s (name :: kept))
    (hconf : Conforms known before) (hcreated : created trace = [])
    (hdeleted : deleted trace = [name])
    (hgone : s'.holdings = { s.holdings with objects := s.objects.removeTree name }) :
    Accounts start (before ++ trace) s' kept := by
  have hobjects : s'.objects = s.objects.removeTree name := congrArg Holdings.objects hgone
  refine ⟨?_, ?_, ?_, by rw [hgone, hobjects, h.others]⟩
  · rw [created_append, deleted_append, hcreated, hdeleted, List.append_nil, List.append_assoc]
    exact h.balance
  · have hroot := h.grown.roots name List.mem_cons_self
    have hnew : ∀ other ∈ start.objects.known, rootOf other ≠ name :=
      fun other hother heq ↦ h.grown.fresh other hother (heq ▸ List.mem_cons_self)
    have hfirst := (List.nodup_cons.mp (h.nodup hconf)).1
    rw [hobjects]
    refine (h.grown.removeTree hroot hnew).of_mem_iff fun root ↦ ?_
    have hne : root ∈ kept → root ≠ name := fun hmem heq ↦ hfirst (heq ▸ hmem)
    simpa using hne
  · rw [hobjects]
    exact fun horderly ↦ (h.orderly horderly).removeTree name

end Accounts

namespace Session

/-! ### Creating objects -/

theorem runs_askValue {result : Except SessionError String}
    (h : (askValue name).run.Runs s trace result s') :
    created trace = [] ∧ deleted trace = [] ∧ s'.holdings = s.holdings := by
  have hnothing : ∀ answer, created [⟨(Request.varEvaluateExpression name).command, answer⟩] = [] ∧
      deleted [⟨(Request.varEvaluateExpression name).command, answer⟩] = [] := by
    intro answer
    simp [created, deleted, Exchange.created?_of_ne, Exchange.deleted?_of_ne, Request.command,
      Request.parts, Command.plain]
  rcases Operation.runs_bind_iff.mp h with
    ⟨before, response, s₁, after, rfl, hask, hread⟩ | ⟨e, -, hask⟩
  · obtain ⟨rfl, hquiet⟩ := Operation.runs_request_iff.mp hask
    have hsame : after = [] ∧ s' = s₁ := by
      unfold Operation.textOf at hread
      split at hread
      · exact (Operation.runs_pure_iff.mp hread).imp_right And.right
      · exact (Operation.runs_throw_iff.mp hread).imp_right And.right
    obtain ⟨rfl, rfl⟩ := hsame
    exact ⟨(hnothing _).1, (hnothing _).2, hquiet⟩
  · obtain ⟨rfl, hquiet⟩ := Operation.runs_request_iff.mp hask
    exact ⟨(hnothing _).1, (hnothing _).2, hquiet⟩

theorem runs_storeObject {v : Variable} {result : Except SessionError Variable}
    (h : (storeObject v).run.Runs s trace result s') :
    trace = [] ∧ result = .ok v ∧
      s'.holdings = { s.holdings with objects := s.objects.insert v } := by
  obtain ⟨before, _, s₁, after, rfl, hupdate, hreturn⟩ := Operation.runs_bind_lift_iff.mp h
  obtain ⟨rfl, rfl⟩ := Task.runs_update_iff.mp hupdate
  obtain ⟨rfl, rfl, rfl⟩ := Operation.runs_pure_iff.mp hreturn
  exact ⟨rfl, rfl, rfl⟩

theorem runs_discardObject {value : Unit} (h : (discardObject name).Runs s trace value s')
    (hproper : ∀ exchange ∈ trace, exchange.Proper) :
    created trace = [] ∧ deleted trace = [name] ∧
      s'.holdings = { s.holdings with objects := s.objects.removeTree name } := by
  obtain ⟨before, result, s₁, after, rfl, hdelete, hforget⟩ := Task.runs_bind_iff.mp h
  obtain ⟨rfl, hquiet⟩ := Operation.runs_request_iff.mp hdelete
  obtain ⟨rfl, rfl⟩ := Task.runs_update_iff.mp hforget
  obtain ⟨response, rfl⟩ := (hproper ⟨_, result⟩ List.mem_cons_self).deleted rfl
  refine ⟨by simp [created], by simp [deleted], ?_⟩
  rw [← hquiet, ← (holdings_eq_iff.mp hquiet).2.1]
  rfl

theorem ofCreate_eq_error {fields : Fields} {e : SessionError}
    (h : ofCreate expression fields = .error e) : fields.text? "name" = none := by
  unfold ofCreate at h
  split at h
  · assumption
  · nomatch h

/-- All that creating an object can do, if the debugger refuses no deletion: nothing, or create an
object and store it, or create an object and discard it. -/
theorem createObject_cases {result : Except SessionError Variable}
    (hrun : (createObject expression).run.Runs s trace result s')
    (hproper : ∀ exchange ∈ trace, exchange.Proper) :
    (∃ e, result = .error e ∧ created trace = [] ∧ deleted trace = [] ∧
      s'.holdings = s.holdings) ∨
    (∃ v, result = .ok v ∧ v.children = none ∧ created trace = [v.name] ∧ deleted trace = [] ∧
      s'.holdings = { s.holdings with objects := s.objects.insert v }) ∨
    ∃ e name, result = .error e ∧ created trace = [name] ∧ deleted trace = [name] ∧
      s'.holdings = { s.holdings with objects := s.objects.removeTree name } := by
  rcases Operation.runs_bind_iff.mp hrun with
    ⟨_, response, s₁, after, rfl, hcreate, hrest⟩ | ⟨e, rfl, hcreate⟩
  swap
  · obtain ⟨rfl, hquiet⟩ := Operation.runs_request_iff.mp hcreate
    exact .inl ⟨e, rfl, rfl, rfl, hquiet⟩
  obtain ⟨rfl, hquiet⟩ := Operation.runs_request_iff.mp hcreate
  have hobjects := (holdings_eq_iff.mp hquiet).2.1
  rcases Operation.runs_bind_iff.mp hrest with
    ⟨_, v, s₂, after, rfl, hread, hvalue⟩ | ⟨e, rfl, hread⟩
  swap
  · obtain ⟨rfl, hanswer, rfl⟩ := Task.runs_pure_iff.mp hread
    exact .inl ⟨e, rfl, by simp [created, ofCreate_eq_error hanswer.symm], rfl, hquiet⟩
  obtain ⟨rfl, hanswer, rfl⟩ := Task.runs_pure_iff.mp hread
  obtain ⟨hname, hchildless⟩ := ofCreate_eq_ok hanswer.symm
  have hfirst :
      created [⟨(Request.varCreate none none expression).command, .ok response⟩] = [v.name] ∧
        deleted [⟨(Request.varCreate none none expression).command, .ok response⟩] = [] := by
    simp [created, deleted, hname]
  split at hvalue
  · obtain ⟨rfl, rfl, hstored⟩ := runs_storeObject hvalue
    refine .inr (.inl ⟨v, rfl, hchildless, hfirst.1, hfirst.2, ?_⟩)
    rw [hstored, hquiet, hobjects]
  -- The value has to be asked for.
  obtain ⟨_, answer, s₃, after, rfl, hask, hlast⟩ := Operation.runs_bind_lift_iff.mp hvalue
  obtain ⟨hcreated, hdeleted, hquiet'⟩ := runs_askValue hask
  have hobjects' := (holdings_eq_iff.mp hquiet').2.1
  cases answer with
  | ok value =>
    obtain ⟨rfl, rfl, hstored⟩ := runs_storeObject hlast
    refine .inr (.inl ⟨{ v with value := some value }, rfl, hchildless, ?_, ?_, ?_⟩)
    · simp only [created_append, created_nil, hcreated, hfirst.1, List.append_nil]
    · simp only [deleted_append, deleted_nil, hdeleted, hfirst.2, List.append_nil]
    · rw [hstored, hquiet', hobjects', hquiet, hobjects]
  | error e =>
    obtain ⟨_, _, s₄, after, rfl, hdiscard, hthrow⟩ := Operation.runs_bind_lift_iff.mp hlast
    obtain ⟨hcreated', hdeleted', hdiscarded⟩ := runs_discardObject hdiscard fun exchange hmem ↦
      hproper exchange (by simp [hmem])
    obtain ⟨rfl, rfl, rfl⟩ := Operation.runs_throw_iff.mp hthrow
    refine .inr (.inr ⟨e, v.name, rfl, ?_, ?_, ?_⟩)
    · simp only [created_append, created_nil, hcreated, hcreated', hfirst.1, List.append_nil]
    · simp only [deleted_append, hdeleted, hdeleted', hfirst.2, List.append_nil, List.nil_append]
    · rw [hdiscarded, hquiet', hobjects', hquiet, hobjects]

/-- Creating an object makes it live, or nothing. -/
theorem adds_createObject (s : Session) (expression : String) :
    (createObject expression).run.Adds s fun result live s' ↦
      (∀ v, result = .ok v →
        live = [v.name] ∧ s'.objects.get? v.name = some v ∧ v.children = none) ∧
      ∀ e, result = .error e → live = [] := by
  intro trace result s' hrun hconf
  rcases createObject_cases hrun hconf.proper with ⟨e, rfl, hcreated, hdeleted, hquiet⟩ |
    ⟨v, rfl, hchildless, hcreated, hdeleted, hstored⟩ | ⟨e, name, rfl, hcreated, hdeleted, hgone⟩
  · exact ⟨[], .nothing hcreated hdeleted hquiet, by simp, by simp⟩
  · refine ⟨[v.name], .store hconf hcreated hdeleted hchildless hstored, ?_, by simp⟩
    rintro _ ⟨⟩
    have hobjects : s'.objects = s.objects.insert v := congrArg Holdings.objects hstored
    refine ⟨rfl, ?_, hchildless⟩
    rw [hobjects]
    exact (NamedTable.get?_insert s.objects.objects v.name v.name v).trans (if_pos rfl)
  · exact ⟨[], .discarded hconf hcreated hdeleted hgone, by simp, by simp⟩

/-! ### Discarding objects -/

theorem owns_discardObject {kept : List String} :
    (discardObject name).Owns start (name :: kept) s fun _ live' s' ↦ live' = kept ∧
      ∀ other ∈ s.objects.known, rootOf other ≠ name → other ∈ s'.objects.known := by
  intro before trace value s' hacc hrun hconf
  obtain ⟨hcreated, hdeleted, hgone⟩ := runs_discardObject hrun fun exchange hmem ↦
    hconf.proper exchange (List.mem_append_right _ hmem)
  refine ⟨kept, hacc.discard hconf.left hcreated hdeleted hgone, rfl, fun other hother hne ↦ ?_⟩
  rw [show s'.objects = s.objects.removeTree name from congrArg Holdings.objects hgone,
    VariableTable.mem_known_removeTree_of_isRootName (hacc.grown.roots name List.mem_cons_self)]
  exact ⟨hother, hne⟩

/-- What is discarded is live no more, and everything else stays. -/
theorem owns_discardAll (names : List String) {kept : List String} :
    (discardAll names).Owns start (names ++ kept) s fun _ live' s' ↦ live' = kept ∧
      ∀ other ∈ s.objects.known, rootOf other ∉ names → other ∈ s'.objects.known := by
  have hall : ∀ (names : List String) (s : Session),
      (names.forM discardObject).Owns start (names ++ kept) s fun _ live' s' ↦ live' = kept ∧
        ∀ other ∈ s.objects.known, rootOf other ∉ names → other ∈ s'.objects.known := by
    intro names
    induction names with
    | nil => exact fun s ↦ Task.owns_pure ⟨rfl, fun other hother _ ↦ hother⟩
    | cons name rest ih =>
      intro s
      refine Task.owns_bind owns_discardObject fun _ live' s₁ hfirst ↦ ?_
      obtain ⟨rfl, hkept⟩ := hfirst
      refine (ih s₁).mono fun _ live' s' hrest ↦ ⟨hrest.1, fun other hother hne ↦ ?_⟩
      rw [List.mem_cons, not_or] at hne
      exact hrest.2 other (hkept other hother hne.1) hne.2
  have hperm : (names ++ kept).Perm (names.reverse ++ kept) :=
    (List.reverse_perm names).symm.append_right kept
  refine ((hall names.reverse s).of_perm hperm).mono fun _ live' s' hrest ↦ ?_
  exact ⟨hrest.1, fun other hother hne ↦ hrest.2 other hother (by rwa [List.mem_reverse])⟩

/-! ### Listing children -/

/-- Completing children changes neither their names nor what the session holds. -/
theorem runs_completeChild {child child' : Variable}
    (h : (completeChild child).Runs s trace child' s') :
    created trace = [] ∧ deleted trace = [] ∧ s'.holdings = s.holdings ∧
      child'.name = child.name ∧ child'.children = child.children := by
  unfold completeChild at h
  extract_lets fetchPath at h
  have hpath : ∀ (child : Variable) {s : Session} {trace : List Exchange},
      (fetchPath child).Runs s trace child' s' → created trace = [] ∧ deleted trace = [] ∧
        s'.holdings = s.holdings ∧ child'.name = child.name ∧ child'.children = child.children := by
    intro child s trace h
    obtain ⟨_, answer, s₁, after, rfl, hask, hrest⟩ := Task.runs_bind_iff.mp h
    obtain ⟨rfl, hquiet⟩ := Operation.runs_request_iff.mp hask
    have hnothing : created [⟨(Request.varInfoPathExpression child.name).command, answer⟩] = [] ∧
        deleted [⟨(Request.varInfoPathExpression child.name).command, answer⟩] = [] := by
      simp [created, deleted, Exchange.created?_of_ne, Exchange.deleted?_of_ne, Request.command,
        Request.parts, Command.plain]
    cases answer <;> obtain ⟨rfl, rfl, rfl⟩ := Task.runs_pure_iff.mp hrest <;>
      exact ⟨hnothing.1, hnothing.2, hquiet, rfl, rfl⟩
  split at h
  · exact hpath child h
  · obtain ⟨before, answer, s₁, after, rfl, hask, hrest⟩ := Task.runs_bind_iff.mp h
    obtain ⟨hcreated, hdeleted, hquiet⟩ := runs_askValue hask
    have hlast : created after = [] ∧ deleted after = [] ∧ s'.holdings = s₁.holdings ∧
        child'.name = child.name ∧ child'.children = child.children := by
      cases answer with
      | ok value => exact hpath { child with value := some value } hrest
      | error e => exact hpath child hrest
    obtain ⟨hcreated', hdeleted', hquiet', hsame⟩ := hlast
    exact ⟨by rw [created_append, hcreated, hcreated', List.nil_append],
      by rw [deleted_append, hdeleted, hdeleted', List.nil_append], hquiet'.trans hquiet, hsame⟩

theorem runs_completeChildren {children children' : List Variable}
    (h : (completeChildren children).Runs s trace children' s') :
    created trace = [] ∧ deleted trace = [] ∧ s'.holdings = s.holdings ∧
      children'.map Variable.name = children.map Variable.name ∧
        children'.map Variable.children = children.map Variable.children := by
  induction children generalizing s trace children' with
  | nil =>
    obtain ⟨rfl, rfl, rfl⟩ := Task.runs_pure_iff.mp h
    exact ⟨rfl, rfl, rfl, rfl, rfl⟩
  | cons child rest ih =>
    obtain ⟨before, child', s₁, after, rfl, hfirst, hrest⟩ := Task.runs_bind_iff.mp h
    obtain ⟨middle, rest', s₂, after, rfl, hothers, hlast⟩ := Task.runs_bind_iff.mp hrest
    obtain ⟨rfl, rfl, rfl⟩ := Task.runs_pure_iff.mp hlast
    obtain ⟨hcreated, hdeleted, hquiet, hname, hchildren⟩ := runs_completeChild hfirst
    obtain ⟨hcreated', hdeleted', hquiet', hnames, hchildrens⟩ := ih hothers
    refine ⟨?_, ?_, hquiet'.trans hquiet, ?_, ?_⟩
    · simp only [created_append, hcreated, hcreated', List.append_nil]
    · simp only [deleted_append, hdeleted, hdeleted', List.append_nil]
    · rw [List.map_cons, List.map_cons, hname, hnames]
    · rw [List.map_cons, List.map_cons, hchildren, hchildrens]

theorem owns_storeChildren {parent : Variable} {children : List Variable}
    (hlive : parent.name ∈ live) (hparent : s.objects.get? parent.name = some parent)
    (hchildless : parent.children = none)
    (hbelow : ∀ child ∈ children, isBelow parent.name child.name)
    (hbare : ∀ child ∈ children, child.children = none) :
    (storeChildren parent.name children).run.Owns start live s fun result live' s' ↦
      live' = live ∧ s.objects.known ⊆ s'.objects.known ∧ ∀ stored, result = .ok stored →
        ∀ child ∈ stored, isBelow parent.name child.name ∧ child.name ∈ s'.objects.known := by
  intro before trace result s' hacc hrun _
  have hset := VariableTable.setChildren_of_childless children hparent hchildless
  have hroot := rootOf_eq_self (hacc.grown.roots _ hlive)
  have hstored : trace = [] ∧ result = .ok children ∧
      s' = { s with objects := s.objects.addChildren parent.name children } := by
    rcases Operation.runs_bind_iff.mp hrun with
      ⟨_, _, s₁, after, rfl, hstep, hreturn⟩ | ⟨e, -, hstep⟩
    · obtain ⟨rfl, -, rfl⟩ := Task.runs_step_iff.mp hstep
      obtain ⟨rfl, rfl, rfl⟩ := Operation.runs_pure_iff.mp hreturn
      exact ⟨rfl, rfl, by rw [hset]⟩
    · obtain ⟨-, hvalue, -⟩ := Task.runs_step_iff.mp hstep
      rw [hset] at hvalue
      nomatch hvalue
  obtain ⟨rfl, rfl, rfl⟩ := hstored
  refine ⟨live, ⟨?_, hacc.grown.addChildren (by rwa [hroot]) hbelow,
    fun horderly ↦ (hacc.orderly horderly).addChildren hbare hbelow, ?_⟩, rfl, ?_, ?_⟩
  · rw [List.append_nil]
    exact hacc.balance
  · exact congrArg (fun held : Holdings ↦
      { held with objects := s.objects.addChildren parent.name children }) hacc.others
  · exact fun name hname ↦ VariableTable.mem_known_addChildren.mpr (.inl hname)
  · rintro _ ⟨⟩ child hchild
    exact ⟨hbelow child hchild,
      VariableTable.mem_known_addChildren.mpr (.inr (List.mem_map_of_mem hchild))⟩

/-- The children of an object that is live and was not asked about before. They are stored, and
nothing becomes live by that. -/
theorem owns_listChildren {parent : Variable} (hlive : parent.name ∈ live)
    (hparent : s.objects.get? parent.name = some parent) (hchildless : parent.children = none) :
    (listChildren parent.name).run.Owns start live s fun result live' s' ↦ live' = live ∧
      s.objects.known ⊆ s'.objects.known ∧ ∀ children, result = .ok children →
        ∀ child ∈ children, isBelow parent.name child.name ∧ child.name ∈ s'.objects.known := by
  refine Operation.owns_bind (Operation.owns_request_quiet
    (show "-var-list-children" ≠ "-var-create" by decide)
    (show "-var-list-children" ≠ "-var-delete" by decide)) ?_ ?_
  · rintro response _ s₁ ⟨rfl, hquiet, hproper⟩
    have hlisted := hproper.listed parent.name List.mem_cons_self
    rw [← (holdings_eq_iff.mp hquiet).2.1] at hparent ⊢
    refine Operation.owns_bind_lift (Task.owns_of_quiet runs_completeChildren) ?_
    rintro completed _ s₂ ⟨rfl, hquiet', hnames, hchildren⟩
    rw [← (holdings_eq_iff.mp hquiet').2.1] at hparent ⊢
    refine owns_storeChildren hlive hparent hchildless ?_ ?_
    · intro child hchild
      refine hlisted child.name ?_
      have hmem := List.mem_map_of_mem (f := Variable.name) hchild
      rw [hnames] at hmem
      simpa [Exchange.listed, Request.command, Request.parts, Command.plain] using hmem
    · intro child hchild
      have hmem := List.mem_map_of_mem (f := Variable.children) hchild
      rw [hchildren] at hmem
      obtain ⟨listed, hlisted, heq⟩ := List.mem_map.mp hmem
      obtain ⟨fields, -, hfields⟩ := List.mem_filterMap.mp hlisted
      rw [← heq, ofChild?_children hfields]
  · rintro e _ s₁ ⟨rfl, hquiet, -⟩
    refine ⟨rfl, ?_, by simp⟩
    rw [(holdings_eq_iff.mp hquiet).2.1]
    exact fun _ ↦ id

end Session

end DebugLink
