import DebugLink.Proofs.Session.Refreshing

/-!
Whether the value of a watch that was published last is still its value (`Session.UpToDate`). An
update publishes the value of each watch that reads an object which it reports. A value that is
fetched, assigned or shown in another format is only stored (`Session.Stores`), and an update
reports an object only where it is told something else than what is stored; so a change that a call
has made to the value of a watch can stay unpublished through the updates after it. What is shown of
a watch after a course of such calls is its value at the end of the last update that reported
something it reads, and the watch is up to date throughout if and only if it is so at the beginning
and no call that stores a value by itself changes its value
(`Session.Course.upToDate_iff_not_silent`).
-/

set_option autoImplicit false

namespace DebugLink

/-- The value that an event publishes of a watch. -/
def Event.valueOf? (id : Nat) : Event → Option Native
  | .watchDecoded other value => if other = id then some value else none
  | _ => none

namespace Session

variable {s s₁ s' : Session} {depth id : Nat} {w : Watch} {name : String} {news : List Event}
  {trace : List Exchange}

/-- The value of a watch that was published last. -/
def shown? (s : Session) (id : Nat) : Option Native :=
  (s.events.filterMap (Event.valueOf? id)).getLast?

/-- What was published last of a watch is its value. -/
def UpToDate (s : Session) (id : Nat) : Prop :=
  s.shown? id = s.watchValue? id

/-- What is shown of a watch depends on the bulletin only. -/
theorem shown?_eq (s : Session) (id : Nat) :
    s.shown? id = (s.bulletin.filterMap (Event.valueOf? id)).getLast? := by
  unfold shown? bulletin
  rw [List.filterMap_filter]
  refine congrArg List.getLast? (List.filterMap_congr fun event _ ↦ ?_)
  cases event <;> rfl

/-- What is shown after some news is what they publish last, if they publish anything. -/
theorem shown?_append (h : s'.bulletin = s.bulletin ++ news) (id : Nat) :
    s'.shown? id = (news.filterMap (Event.valueOf? id)).getLast?.or (s.shown? id) := by
  rw [shown?_eq, shown?_eq, h, List.filterMap_append, List.getLast?_append]

/-- An event shows the value that it publishes, and otherwise leaves what is shown. -/
theorem shown?_emit (s : Session) (event : Event) (id : Nat) :
    (s.emit event).shown? id = (event.valueOf? id).or (s.shown? id) := by
  unfold shown? emit
  rw [List.filterMap_append, List.getLast?_append]
  cases hvalue : event.valueOf? id <;> simp [hvalue]

/-- A session that rests shows what it showed. -/
theorem Rests.shown?_eq (h : s.Rests s') (id : Nat) : s'.shown? id = s.shown? id := by
  rw [Session.shown?_eq, Session.shown?_eq, h.bulletin]

/-- A session that rests has the watches that it had. -/
theorem Rests.get?_eq (h : s.Rests s') (id : Nat) : s'.watches.get? id = s.watches.get? id :=
  congrArg (·.watches.get? id) h.holdings

/-- Nothing goes out of date in a session that rests. -/
theorem Rests.upToDate_iff (h : s.Rests s') : s'.UpToDate id ↔ s.UpToDate id := by
  unfold UpToDate
  rw [h.shown?_eq, watchValue?_congr h.holdings]

/-- A registered watch is up to date if its value is the one that is shown. -/
theorem upToDate_iff_shown? (hget : s.watches.get? id = some w) :
    s.UpToDate id ↔ s.shown? id = some (w.decode s.objects) := by
  rw [UpToDate, watchValue?, hget, Option.map_some]

/-- A watch is up to date when it is registered. -/
theorem upToDate_registerWatch (s : Session) (w : Watch) :
    (s.registerWatch w).2.UpToDate s.nextWatch := by
  have hshown : (s.registerWatch w).2.shown? s.nextWatch = some (w.decode s.objects) :=
    (shown?_emit _ _ _).trans (by rw [Event.valueOf?, if_pos rfl]; rfl)
  rw [UpToDate, hshown, watchValue?_registerWatch]

/-- A watch is up to date when it has been added. -/
theorem upToDate_of_addWatch {expression : String}
    (hrun : (addWatch depth expression).run.RunsAlone s trace (.ok id) s') : s'.UpToDate id := by
  obtain ⟨_, limit, s₀, _, -, -, hrest⟩ := Operation.runsAlone_bind_lift_iff.mp hrun
  obtain ⟨_, ⟨built, created⟩, s₁, _, -, -, hrest⟩ := Operation.runsAlone_bind_lift_iff.mp hrest
  cases built with
  | ok w =>
    obtain ⟨_, hid, hregister⟩ := Operation.runsAlone_lift_iff.mp hrest
    obtain ⟨-, rfl, rfl⟩ := Task.runsAlone_step_iff.mp hregister
    rw [Except.ok.inj hid]
    exact upToDate_registerWatch s₁ w
  | error e =>
    obtain ⟨_, _, s₂, _, -, -, hthrow⟩ := Operation.runsAlone_bind_lift_iff.mp hrest
    obtain ⟨-, hfailed, -⟩ := Task.runsAlone_done_iff.mp hthrow
    nomatch hfailed

/-! ### Values that are stored -/

/-- A value is stored for an object, and nothing is published about watches but that objects have
changed. -/
structure Stores (name : String) (s s' : Session) : Prop where
  holdings : ∃ value, s'.holdings = { s.holdings with
    objects := s.objects.modify name fun v ↦ { v with value := some value } }
  bulletin : ∃ news, s'.bulletin = s.bulletin ++ news ∧ ∀ event ∈ news, ∃ v, event = .watchUpdated v

/-- A new value in the table is a stored value. -/
theorem stores_changeVariables (h : s.Rests s₁) (name value : String) :
    s.Stores name (s₁.changeVariables (·.modify name fun v ↦ { v with value := some value })) := by
  obtain ⟨-, hobjects, -⟩ := holdings_eq_iff.mp h.holdings
  refine ⟨⟨value, ?_⟩, [], (List.append_nil _).symm ▸ h.bulletin, List.forall_mem_nil _⟩
  rw [← h.holdings, ← hobjects]
  rfl

/-- An assignment that is recorded is a stored value. -/
theorem stores_recordAssignment (h : s.Rests s₁) (name value : String) :
    s.Stores name (s₁.recordAssignment name value) := by
  have hstored := stores_changeVariables h name value
  unfold recordAssignment
  dsimp only
  split
  · rename_i v _
    have hevent : (Event.watchUpdated v).AboutWatches := trivial
    obtain ⟨news, hnews, hall⟩ := hstored.bulletin
    refine ⟨hstored.holdings, news ++ [.watchUpdated v], ?_, fun event hmem ↦ ?_⟩
    · rw [bulletin_emit hevent, hnews, List.append_assoc]
    · rcases List.mem_append.mp hmem with hearlier | hlast
      · exact hall event hearlier
      · exact ⟨v, List.mem_singleton.mp hlast⟩
  · exact hstored

/-- The last change of an operation. -/
theorem eq_of_update_then {α : Type} {f : Session → Session} {value : α}
    {result : Except SessionError α}
    (hrun : (Operation.update f >>= fun _ ↦ pure value).run.RunsAlone s trace result s') :
    s' = f s := by
  obtain ⟨_, _, s₁, _, -, hchange, hlast⟩ := Operation.runsAlone_bind_lift_iff.mp hrun
  obtain ⟨-, -, rfl⟩ := Operation.runsAlone_pure_iff.mp hlast
  exact (Task.runsAlone_update_iff.mp hchange).2

/-- Asking for a value stores nothing. -/
theorem rests_of_askValue {value : String}
    (hrun : (askValue name).run.RunsAlone s trace (.ok value) s') : s.Rests s' := by
  obtain ⟨response, rest, s₁, -, hrest, hread⟩ | ⟨e, -, hfailed, -⟩ :=
    Operation.runsAlone_bind_request_iff.mp hrun
  · unfold Operation.textOf at hread
    split at hread
    · obtain ⟨-, -, rfl⟩ := Operation.runsAlone_pure_iff.mp hread
      exact hrest
    · obtain ⟨-, hfailed, -⟩ := Task.runsAlone_done_iff.mp hread
      nomatch hfailed
  · nomatch hfailed

/-- A value that is fetched is stored. -/
theorem stores_of_fetchValue {value : String}
    (hrun : (fetchValue name).run.RunsAlone s trace (.ok value) s') : s.Stores name s' := by
  obtain ⟨_, found, s₁, _, -, hask, hlast⟩ | ⟨e, hfailed, -⟩ :=
    Operation.runsAlone_bind_iff.mp hrun
  · rw [eq_of_update_then hlast]
    exact stores_changeVariables (rests_of_askValue hask) name found
  · nomatch hfailed

/-- A value that is assigned is stored. -/
theorem stores_of_assign {expression value : String}
    (hrun : (assign name expression).run.RunsAlone s trace (.ok value) s') : s.Stores name s' := by
  obtain ⟨response, rest, s₁, -, hrest, hlast⟩ | ⟨e, -, hfailed, -⟩ :=
    Operation.runsAlone_bind_request_iff.mp hrun
  · rw [eq_of_update_then hlast]
    exact stores_recordAssignment hrest name _
  · nomatch hfailed

/-- The value in a new format is stored. -/
theorem stores_of_setFormat {format : DisplayFormat} {value : String}
    (hrun : (setFormat name format).run.RunsAlone s trace (.ok value) s') : s.Stores name s' := by
  obtain ⟨response, rest, s₁, -, hrest, hlast⟩ | ⟨e, -, hfailed, -⟩ :=
    Operation.runsAlone_bind_request_iff.mp hrun
  · rw [eq_of_update_then hlast]
    exact stores_changeVariables hrest name _
  · nomatch hfailed

namespace Stores

variable (h : s.Stores name s')
include h

/-- Storing a value leaves a session kindred. -/
theorem kindred (hs : s.Kindred) : s'.Kindred := by
  obtain ⟨value, hheld⟩ := h.holdings
  have htouched := hs.linked.touch (f := fun v ↦ { v with value := some value })
    (fun _ ↦ ⟨rfl, rfl⟩) name
  exact (hs.objects htouched).of_holdings hheld

/-- Storing a value leaves the watches. -/
theorem watches : s'.watches = s.watches := by
  obtain ⟨value, hheld⟩ := h.holdings
  exact congrArg Holdings.watches hheld

/-- Storing a value leaves what is shown of every watch. -/
theorem shown?_eq (id : Nat) : s'.shown? id = s.shown? id := by
  obtain ⟨news, hnews, hall⟩ := h.bulletin
  have hnone : news.filterMap (Event.valueOf? id) = [] :=
    List.filterMap_eq_nil_iff.mpr fun event hevent ↦ by
      obtain ⟨v, rfl⟩ := hall event hevent
      rfl
  rw [shown?_append hnews, hnone]
  rfl

/-- A watch that does not read the object has the value that it had. -/
theorem decode_eq (hname : name ∉ w.vars) : w.decode s'.objects = w.decode s.objects := by
  obtain ⟨value, hheld⟩ := h.holdings
  have hobjects : s'.objects = _ := congrArg Holdings.objects hheld
  rw [hobjects]
  exact w.decode_congr fun other hother ↦
    VariableTable.reading?_modify_of_ne _ _ fun hsame ↦ hname (hsame ▸ hother)

end Stores

/-! ### Values that are published -/

/-- Reporting a watch shows its value and leaves what is shown of others. -/
theorem shown?_reportWatch (s : Session) (other id : Nat) : (s.reportWatch other).shown? id =
    if other = id then (s.watchValue? id).or (s.shown? id) else s.shown? id := by
  unfold reportWatch
  split_ifs with hother
  · subst hother
    cases s.watchValue? other with
    | none => rfl
    | some value => exact (shown?_emit s _ _).trans (by rw [Event.valueOf?, if_pos rfl])
  · cases s.watchValue? other with
    | none => rfl
    | some value => exact (shown?_emit s _ _).trans (by rw [Event.valueOf?, if_neg hother]; rfl)

/-- The value of a watch is shown once it is published among others. -/
theorem shown?_foldl_reportWatch (ids : List Nat) (s : Session) (id : Nat) :
    (ids.foldl reportWatch s).shown? id =
      if id ∈ ids then (s.watchValue? id).or (s.shown? id) else s.shown? id := by
  induction ids generalizing s with
  | nil => rfl
  | cons other rest ih =>
    rw [List.foldl_cons, ih, watchValue?_congr (holdings_reportWatch s other), shown?_reportWatch]
    by_cases hother : other = id
    · subst hother
      cases s.watchValue? other <;> simp
    · have hne : id ≠ other := Ne.symm hother
      simp [hother, hne]

/-- An update that rebuilds nothing shows the values of the watches that read what it reports. -/
theorem UpdateCycle.shown?_eq {changes : List Fields} {after : List Exchange} {s₂ : Session}
    {updated : List Variable} (h : UpdateCycle depth s changes updated s₁ after s₂ s')
    (hplain : s.watches.restructuredBy (updated.map Variable.name) = []) (id : Nat) :
    s'.holdings = s₁.holdings ∧ s'.shown? id =
      if id ∈ s.watches.affectedBy (updated.map Variable.name) then
        (s'.watchValue? id).or (s.shown? id) else s.shown? id := by
  have hnothing := h.rebuilds
  rw [hplain] at hnothing
  obtain ⟨-, -, rfl⟩ := Task.runsAlone_done_iff.mp hnothing
  have hheld : s'.holdings = s₂.holdings := h.refreshed ▸ holdings_foldl holdings_reportWatch _ s₂
  have hsilent : (updated.map Event.watchUpdated ++
      (updated.map Variable.root).eraseDups.map Event.rootUpdated).filterMap (Event.valueOf? id) =
        [] := by
    simp [List.filterMap_append, List.filterMap_map, Function.comp_def, Event.valueOf?]
  refine ⟨hheld, ?_⟩
  rw [watchValue?_congr hheld, h.refreshed, shown?_foldl_reportWatch, shown?_append h.bulletin,
    hsilent]
  rfl

/-! ### Calls -/

/-- The calls that may change the value of an object that is there. -/
inductive Call
  | fetch (name : String)
  | assign (name expression : String)
  | reformat (name : String) (format : DisplayFormat)
  | update

/-- Whether a call stores a value by itself. -/
def Call.Writes : Call → Prop
  | fetch _ | assign _ _ | reformat _ _ => True
  | update => False

instance : DecidablePred Call.Writes
  | .fetch _ | .assign _ _ | .reformat _ _ => .isTrue trivial
  | .update => .isFalse fun h ↦ h

/-- A call that was completed with success: the sessions before and after it, and the objects that
it stored a value for or reported. -/
structure Stage where
  call : Call
  before : Session
  changed : List String
  after : Session

namespace Stage

/-- A stage that took place while the session rested except for the call. -/
inductive Passes (depth : Nat) : Stage → Prop
  | fetch {name value : String} {s s' : Session} {trace : List Exchange}
      (hrun : (fetchValue name).run.RunsAlone s trace (.ok value) s') :
      Passes depth ⟨.fetch name, s, [name], s'⟩
  | assign {name expression value : String} {s s' : Session} {trace : List Exchange}
      (hrun : (Session.assign name expression).run.RunsAlone s trace (.ok value) s') :
      Passes depth ⟨.assign name expression, s, [name], s'⟩
  | reformat {name value : String} {format : DisplayFormat} {s s' : Session} {trace : List Exchange}
      (hrun : (setFormat name format).run.RunsAlone s trace (.ok value) s') :
      Passes depth ⟨.reformat name format, s, [name], s'⟩
  | update {s s' : Session} {trace : List Exchange} {updated : List Variable}
      (hrun : (updateObjects depth).run.RunsAlone s trace (.ok updated) s') :
      Passes depth ⟨.update, s, updated.map Variable.name, s'⟩

/-- Whether a stage is an update that reports an object that a watch reads. -/
def Refreshes (w : Watch) (stage : Stage) : Prop :=
  ¬stage.call.Writes ∧ ∃ name ∈ stage.changed, name ∈ w.vars

instance (w : Watch) : DecidablePred (Refreshes w) :=
  fun _ ↦ inferInstanceAs (Decidable (_ ∧ _))

variable {stage : Stage}

/-- What a call does about a watch. It shows the value of the watch if it is an update that reports
an object that the watch reads, and otherwise leaves what is shown. The value stays if the call
changes no object that the watch reads. -/
structure Treats (stage : Stage) (id : Nat) (w : Watch) : Prop where
  kindred : stage.after.Kindred
  before : stage.before.watches.get? id = some w
  after : stage.after.watches.get? id = some w
  shown : stage.after.shown? id = if stage.Refreshes w then some (w.decode stage.after.objects)
    else stage.before.shown? id
  kept : (∀ name ∈ stage.changed, name ∉ w.vars) →
    w.decode stage.after.objects = w.decode stage.before.objects

/-- A call that only stores a value shows nothing. -/
theorem treats_of_stores {call : Call} (h : s.Stores name s') (hwrites : call.Writes)
    (hs : s.Kindred) (hget : s.watches.get? id = some w) :
    Treats ⟨call, s, [name], s'⟩ id w where
  kindred := h.kindred hs
  before := hget
  after := h.watches.symm ▸ hget
  shown := by rw [if_neg fun hrefreshes ↦ hrefreshes.1 hwrites, h.shown?_eq]
  kept hother := h.decode_eq (hother name List.mem_cons_self)

/-- An update shows the values of the watches that read what is reported. -/
theorem treats_of_update {updated : List Variable}
    (hrun : (updateObjects depth).run.RunsAlone s trace (.ok updated) s') (hs : s.Kindred)
    (hplain : s.watches.restructuredBy (updated.map Variable.name) = [])
    (hget : s.watches.get? id = some w) :
    Treats ⟨.update, s, updated.map Variable.name, s'⟩ id w := by
  obtain ⟨answer, rest, rfl, hfailed⟩ := trace_of_update hrun
  cases answer with
  | error e => nomatch hfailed e rfl
  | ok response =>
    obtain ⟨reported, s₁, s₂, hreported, hcycle⟩ := updateCycle_of_runs hs hrun
    obtain rfl := Except.ok.inj hreported
    obtain ⟨hheld, hshown⟩ := hcycle.shown?_eq hplain id
    have hwatches : s'.watches = s.watches :=
      congrArg Holdings.watches (hheld.trans hcycle.holdings)
    have hobjects : s'.objects = s.objects.afterAll (changesIn response) :=
      congrArg Holdings.objects (hheld.trans hcycle.holdings)
    have hthere : s'.watches.get? id = some w := hwatches.symm ▸ hget
    have hreads : id ∈ s.watches.affectedBy (updated.map Variable.name) ↔
        Refreshes w ⟨.update, s, updated.map Variable.name, s'⟩ := by
      rw [UpdateCycle.mem_affected_iff hs]
      simp [Refreshes, Call.Writes, hget]
    refine ⟨(hcycle.kindred hs).of_holdings hheld, hget, hthere, ?_, fun hother ↦ ?_⟩
    · rw [hshown, watchValue?, hthere, Option.map_some, Option.some_or]
      exact if_congr hreads rfl rfl
    · rw [hobjects]
      refine hcycle.decode_eq hs hget fun hid ↦ ?_
      obtain ⟨-, name, hname, hread⟩ := hreads.mp hid
      exact hother name hname hread

/-- Every call of a course does to a watch what `Treats` says. By cases on the call. -/
theorem Passes.treats (h : stage.Passes depth) (hs : stage.before.Kindred)
    (hplain : stage.before.watches.restructuredBy stage.changed = [])
    (hget : stage.before.watches.get? id = some w) : stage.Treats id w := by
  cases h with
  | fetch hrun => exact treats_of_stores (stores_of_fetchValue hrun) trivial hs hget
  | assign hrun => exact treats_of_stores (stores_of_assign hrun) trivial hs hget
  | reformat hrun => exact treats_of_stores (stores_of_setFormat hrun) trivial hs hget
  | update hrun => exact treats_of_update hrun hs hplain hget

/-- A watch is up to date after a call if the call refreshes it, or if what was shown before is its
value now. -/
theorem Treats.upToDate_iff (h : stage.Treats id w) : stage.after.UpToDate id ↔
    stage.Refreshes w ∨ stage.before.shown? id = some (w.decode stage.after.objects) := by
  rw [upToDate_iff_shown? h.after, h.shown]
  by_cases hrefreshes : stage.Refreshes w <;> simp [hrefreshes]

/-- A watch that was up to date stays so unless a call that stores a value by itself changes its
value. -/
theorem Treats.upToDate_iff_of_upToDate (h : stage.Treats id w)
    (hbefore : stage.before.UpToDate id) : stage.after.UpToDate id ↔ (stage.call.Writes →
      w.decode stage.after.objects = w.decode stage.before.objects) := by
  rw [h.upToDate_iff, (upToDate_iff_shown? h.before).mp hbefore, Option.some_inj]
  by_cases hwrites : stage.call.Writes
  · rw [or_iff_right fun hrefreshes ↦ hrefreshes.1 hwrites]
    exact ⟨fun hsame _ ↦ hsame.symm, fun hsame ↦ (hsame hwrites).symm⟩
  · refine iff_of_true (or_iff_not_imp_left.mpr fun hsilent ↦ ?_) fun hw ↦ absurd hw hwrites
    exact (h.kept fun name hname hread ↦ hsilent ⟨hwrites, name, hname, hread⟩).symm

/-- By an update a watch comes up to date only where the update reports an object that it reads. -/
theorem Treats.upToDate_iff_of_update (h : stage.Treats id w) (hwrites : ¬stage.call.Writes) :
    stage.after.UpToDate id ↔
      stage.before.UpToDate id ∨ ∃ name ∈ stage.changed, name ∈ w.vars := by
  rw [h.upToDate_iff, upToDate_iff_shown? h.before, Refreshes, and_iff_right hwrites]
  by_cases hread : ∃ name ∈ stage.changed, name ∈ w.vars
  · exact iff_of_true (.inl hread) (.inr hread)
  · rw [h.kept fun name hname hname' ↦ hread ⟨name, hname, hname'⟩]
    exact or_comm

end Stage

/-! ### Courses of calls -/

/-- Calls that are completed with success one after another, none of which changes an object on
which the structure of a watch depends. Between them the session rests. -/
inductive Course (depth : Nat) : Session → List Stage → Session → Prop
  | done {s s' : Session} (hrest : s.Rests s') : Course depth s [] s'
  | call {s s' : Session} {stage : Stage} {stages : List Stage} (hrest : s.Rests stage.before)
      (hpasses : stage.Passes depth)
      (hplain : stage.before.watches.restructuredBy stage.changed = [])
      (hnext : Course depth stage.after stages s') : Course depth s (stage :: stages) s'

variable {stages : List Stage}

/-- What each call of a course does about a watch that is registered at the beginning. -/
theorem Course.treats (h : Course depth s stages s') (hs : s.Kindred)
    (hget : s.watches.get? id = some w) :
    s'.watches.get? id = some w ∧ ∀ stage ∈ stages, stage.Treats id w := by
  induction h with
  | done hrest => exact ⟨(hrest.get?_eq id).trans hget, List.forall_mem_nil _⟩
  | call hrest hpasses hplain _ ih =>
    have htreats := hpasses.treats (hs.of_holdings hrest.holdings) hplain
      ((hrest.get?_eq id).trans hget)
    obtain ⟨hlast, hothers⟩ := ih htreats.kindred htreats.after
    exact ⟨hlast, List.forall_mem_cons.mpr ⟨htreats, hothers⟩⟩

/-- What is shown of a watch after a course is its value at the end of the last update that reported
an object that it reads. -/
theorem Course.shown?_eq (h : Course depth s stages s')
    (htreats : ∀ stage ∈ stages, stage.Treats id w) :
    s'.shown? id = ((stages.filter fun stage ↦ decide (stage.Refreshes w)).getLast?.map fun stage ↦
      w.decode stage.after.objects).or (s.shown? id) := by
  induction h with
  | done hrest => exact hrest.shown?_eq id
  | @call s s' stage stages hrest hpasses hplain hnext ih =>
    obtain ⟨hfirst, hothers⟩ := List.forall_mem_cons.mp htreats
    rw [ih hothers, hfirst.shown, hrest.shown?_eq]
    by_cases hrefreshes : stage.Refreshes w
    · rw [List.filter_cons_of_pos (by simpa using hrefreshes), if_pos hrefreshes,
        List.getLast?_cons]
      cases (stages.filter fun stage ↦ decide (stage.Refreshes w)).getLast? <;> rfl
    · rw [List.filter_cons_of_neg (by simpa using hrefreshes), if_neg hrefreshes]

/-- A watch stays up to date throughout a course if and only if no call that stores a value by
itself changes its value. -/
theorem Course.stays_upToDate_iff (h : Course depth s stages s')
    (htreats : ∀ stage ∈ stages, stage.Treats id w) (hfirst : s.UpToDate id) :
    (∀ stage ∈ stages, stage.after.UpToDate id) ↔ ∀ stage ∈ stages, stage.call.Writes →
      w.decode stage.after.objects = w.decode stage.before.objects := by
  induction h with
  | done => simp
  | call hrest _ _ _ ih =>
    obtain ⟨hcall, hothers⟩ := List.forall_mem_cons.mp htreats
    have hbefore := hrest.upToDate_iff.mpr hfirst
    rw [List.forall_mem_cons, List.forall_mem_cons, ← hcall.upToDate_iff_of_upToDate hbefore]
    exact and_congr_right fun hafter ↦ ih hothers hafter

/-- When a watch is up to date, in a session that arises from operations and then goes through a
course of calls that fetch, assign, show in another format and update values. The watch stays
registered. What is shown of it is its value at the end of the last update that reported an object
that it reads, or what was shown before the course if there was none. By an update it comes up to
date only where the update reports an object that it reads, and a call leaves its value where it
changes no such object. So it is up to date before the course and after each of its calls if and
only if it is so before the course and no call that stores a value by itself changes its value. -/
theorem Course.upToDate_iff_not_silent (hs : s.Arises) (h : Course depth s stages s')
    (hget : s.watches.get? id = some w) :
    s'.watches.get? id = some w ∧
      s'.shown? id = ((stages.filter fun stage ↦ decide (stage.Refreshes w)).getLast?.map
        fun stage ↦ w.decode stage.after.objects).or (s.shown? id) ∧
      (∀ stage ∈ stages,
        (¬stage.call.Writes → (stage.after.UpToDate id ↔
          stage.before.UpToDate id ∨ ∃ name ∈ stage.changed, name ∈ w.vars)) ∧
        ((∀ name ∈ stage.changed, name ∉ w.vars) →
          w.decode stage.after.objects = w.decode stage.before.objects)) ∧
      ((s.UpToDate id ∧ ∀ stage ∈ stages, stage.after.UpToDate id) ↔
        s.UpToDate id ∧ ∀ stage ∈ stages, stage.call.Writes →
          w.decode stage.after.objects = w.decode stage.before.objects) := by
  obtain ⟨hlast, htreats⟩ := h.treats hs.kindred hget
  refine ⟨hlast, h.shown?_eq htreats, fun stage hstage ↦ ?_,
    and_congr_right (h.stays_upToDate_iff htreats)⟩
  exact ⟨(htreats stage hstage).upToDate_iff_of_update, (htreats stage hstage).kept⟩

/-- The answer to an update that reports the value of an object. -/
def revalued (name value : String) : Response :=
  ⟨1, "done", NamedTable.ofList [("changelist", .values [.tuple (NamedTable.ofList
    [("name", .text name), ("value", .text value), ("in_scope", .text "true")])])]⟩

/-- Whether a number can be watched, another value be assigned to its object, and an update be made
after that which reports certain objects. -/
def reportsAfterAssignment (answer : Response) (reported : List String) : Bool :=
  ((addWatch nestingLimit "n").run.play [described "var1" "int" "1"] (start .standard)).any
    fun (adding, added, s) ↦
      ((assign "var1" "2").run.play [answered [("value", "2")]] s).any fun (_, assigned, s₁) ↦
        ((updateObjects nestingLimit).run.play [.ok answer] s₁).any fun (_, updated, _) ↦
          decide ((∀ exchange ∈ adding, exchange.Named) ∧ added.toOption = some 1 ∧
            assigned.toOption = some "2" ∧
            updated.toOption.map (·.map Variable.name) = some reported ∧
            s.watches.restructuredBy ["var1"] = [] ∧ s₁.watches.restructuredBy reported = []) &&
          (s.watches.get? 1).any fun w ↦ decide ("var1" ∈ w.vars ∧
            (w.decode s₁.objects).describe ≠ (w.decode s.objects).describe)

/-- The course of an assignment and an update in a session where a number is watched. -/
theorem exists_course {answer : Response} {reported : List String}
    (h : reportsAfterAssignment answer reported) : ∃ s s₁ s' w, s.Arises ∧ s.UpToDate 1 ∧
      s.watches.get? 1 = some w ∧ "var1" ∈ w.vars ∧
      Course nestingLimit s
        [⟨.assign "var1" "2", s, ["var1"], s₁⟩, ⟨.update, s₁, reported, s'⟩] s' ∧
      w.decode s₁.objects ≠ w.decode s.objects := by
  obtain ⟨adding, added, s, hadd, -, h⟩ := Task.exists_runsAlone_of_play h
  obtain ⟨_, assigned, s₁, hassign, -, h⟩ := Task.exists_runsAlone_of_play h
  obtain ⟨_, updated, s', hupdate, -, h⟩ := Task.exists_runsAlone_of_play h
  dsimp only at h
  rw [Bool.and_eq_true, decide_eq_true_eq, Option.any_eq_true] at h
  obtain ⟨⟨hnamed, hadded, hassigned, hreported, hplain, hplain'⟩, w, hget, hw⟩ := h
  obtain ⟨hreads, hdescribed⟩ := of_decide_eq_true hw
  cases added with
  | error e => nomatch hadded
  | ok id =>
  cases assigned with
  | error e => nomatch hassigned
  | ok value =>
  cases updated with
  | error e => nomatch hreported
  | ok updated =>
  obtain rfl := Option.some.inj hadded
  obtain rfl : updated.map Variable.name = reported := Option.some.inj hreported
  have hrun : (Errand.addWatch "n").operation.run.RunsAlone (start .standard) adding (.ok ()) s :=
    Operation.runsAlone_bind_iff.mpr (.inl ⟨adding, 1, s, [], (List.append_nil _).symm, hadd,
      Operation.runsAlone_pure_iff.mpr ⟨rfl, rfl, rfl⟩⟩)
  refine ⟨s, s₁, s', w, .perform (.start .standard) hrun.runs hnamed, upToDate_of_addWatch hadd,
    hget, hreads, ?_, fun hsame ↦ hdescribed (congrArg Native.describe hsame)⟩
  exact .call (.refl s) (.assign hassign) hplain
    (.call (.refl s₁) (.update hupdate) hplain' (.done (.refl s')))

/-- By an assignment to its object a watch goes out of date, and by an update that reports a third
value it comes up to date. -/
theorem Course.upToDate_iff_not_silent_of_third_value : ∃ s s₁ s' w, s.Arises ∧
    Course nestingLimit s [⟨.assign "var1" "2", s, ["var1"], s₁⟩, ⟨.update, s₁, ["var1"], s'⟩] s' ∧
      s.watches.get? 1 = some w ∧ s.UpToDate 1 ∧ ¬s₁.UpToDate 1 ∧ s'.UpToDate 1 := by
  have hplay : reportsAfterAssignment (revalued "var1" "3") ["var1"] := by
    decide +kernel
  obtain ⟨s, s₁, s', w, harises, hfirst, hget, hreads, hcourse, hdiffers⟩ := exists_course hplay
  obtain ⟨-, -, heach, hall⟩ := Course.upToDate_iff_not_silent harises hcourse hget
  have hlast : s'.UpToDate 1 := by
    refine ((heach _ (List.mem_cons_of_mem _ List.mem_cons_self)).1 (fun hw ↦ hw)).mpr ?_
    exact .inr ⟨"var1", List.mem_cons_self, hreads⟩
  refine ⟨s, s₁, s', w, harises, hcourse, hget, hfirst, fun hmiddle ↦ hdiffers ?_, hlast⟩
  refine (hall.mp ⟨hfirst, ?_⟩).2 _ List.mem_cons_self trivial
  simp [hmiddle, hlast]

/-- A watch of which every call of a course concerns an object does not always stay up to date. The
value that is assigned to its object is stored but not published, and the update after that, which
is told the same value, reports nothing. -/
theorem not_always_upToDate : ¬∀ (s s' : Session) (stages : List Stage) (id : Nat) (w : Watch),
    s.Arises → Course nestingLimit s stages s' → s.watches.get? id = some w →
      (∀ stage ∈ stages, ∀ name ∈ stage.changed, name ∈ w.vars) → s.UpToDate id →
        s'.UpToDate id := by
  intro hall
  have hplay : reportsAfterAssignment (revalued "var1" "2") [] := by
    decide +kernel
  obtain ⟨s, s₁, s', w, harises, hfirst, hget, hreads, hcourse, hdiffers⟩ := exists_course hplay
  have hlast : s'.UpToDate 1 := hall s s' _ 1 w harises hcourse hget (by simp [hreads]) hfirst
  obtain ⟨-, htreats⟩ := hcourse.treats harises.kindred hget
  have hupdate := htreats _ (List.mem_cons_of_mem _ List.mem_cons_self)
  have hmiddle : s₁.UpToDate 1 :=
    ((hupdate.upToDate_iff_of_update fun hw ↦ hw).mp hlast).resolve_right (by simp)
  refine hdiffers ((hcourse.stays_upToDate_iff htreats hfirst).mp ?_ _ List.mem_cons_self trivial)
  simp [hmiddle, hlast]

end Session

end DebugLink
