import DebugLink.Proofs.Session.Adding
import DebugLink.Proofs.Session.Arising
import DebugLink.Proofs.Watch.Accounting

/-!
What one update publishes. It goes through stages (`Session.UpdateCycle`): the change list is
applied and its reports are published with their distinct roots, the watches whose structure depends
on a reported object are rebuilt, and the value of each watch that reads one is published, in the
order of their numbers. In a session that arises from operations the watches that read a reported
object are all whose value the change list changes, although it can remove objects that it does not
report (`Session.update_exact`).
-/

set_option autoImplicit false

namespace DebugLink

open Variable

namespace Session

variable {s s₁ s₂ s' : Session} {depth : Nat} {changes : List Fields} {after : List Exchange}
  {updated : List Variable}

/-! ### Roots -/

theorem foldl_distinctRoots (updated : List Variable) (roots : List String) :
    updated.foldl (fun roots v ↦ if roots.contains v.root then roots else roots ++ [v.root]) roots =
      roots ++ ((updated.map Variable.root).filter fun root ↦ !roots.contains root).eraseDups := by
  induction updated generalizing roots with
  | nil => simp
  | cons v rest ih =>
    rw [List.foldl_cons, ih, List.map_cons]
    by_cases hold : roots.contains v.root
    · rw [if_pos hold, List.filter_cons_of_neg (by simpa using hold)]
    · rw [if_neg hold, List.filter_cons_of_pos (by simpa using hold), List.eraseDups_cons,
        List.filter_filter, List.append_assoc, List.singleton_append]
      refine congrArg (fun later ↦ roots ++ v.root :: List.eraseDups later) ?_
      refine List.filter_congr fun root _ ↦ ?_
      rw [Bool.eq_iff_iff]
      simp [and_comm]

/-- The distinct roots are the roots without those that were there before. -/
theorem distinctRoots_eq (updated : List Variable) :
    distinctRoots updated = (updated.map Variable.root).eraseDups := by
  refine (foldl_distinctRoots updated []).trans ?_
  simp

/-! ### Reports of watches -/

/-- The values of those of some watches that are registered. -/
def valuesOf (s : Session) (ids : List Nat) : List (Nat × Native) :=
  ids.filterMap fun id ↦ (s.watchValue? id).map fun value ↦ (id, value)

theorem watchValue?_congr (h : s'.holdings = s.holdings) (id : Nat) :
    s'.watchValue? id = s.watchValue? id := by
  obtain ⟨-, hobjects, hwatches, -⟩ := holdings_eq_iff.mp h
  unfold watchValue?
  rw [hobjects, hwatches]

theorem bulletin_foldl_reportWatch (ids : List Nat) (s : Session) :
    (ids.foldl reportWatch s).bulletin =
      s.bulletin ++ (s.valuesOf ids).map fun entry ↦ .watchDecoded entry.1 entry.2 := by
  induction ids generalizing s with
  | nil => exact (List.append_nil _).symm
  | cons id rest ih =>
    have hrest : (s.reportWatch id).valuesOf rest = s.valuesOf rest := by
      unfold valuesOf
      simp only [watchValue?_congr (holdings_reportWatch s id)]
    have hcons : s.valuesOf (id :: rest) =
        ((s.watchValue? id).map fun value ↦ (id, value)).toList ++ s.valuesOf rest := by
      unfold valuesOf
      rw [List.filterMap_cons]
      cases s.watchValue? id <;> rfl
    rw [List.foldl_cons, ih, hrest, hcons, reportWatch]
    cases s.watchValue? id with
    | none => rfl
    | some value =>
      have hevent : (Event.watchDecoded id value).AboutWatches := trivial
      dsimp only
      rw [bulletin_emit hevent, List.append_assoc]
      rfl

/-- The values are those of the watches, one for each if they are registered. -/
theorem map_fst_valuesOf {ids : List Nat} (h : ∀ id ∈ ids, (s.watches.get? id).isSome) :
    (s.valuesOf ids).map Prod.fst = ids := by
  have hvalues : s.valuesOf ids =
      ids.map fun id ↦ (id, (s.watchValue? id).getD .unavailable) := by
    unfold valuesOf
    rw [← List.filterMap_eq_map]
    refine List.filterMap_congr fun id hid ↦ ?_
    obtain ⟨w, hget⟩ := Option.isSome_iff_exists.mp (h id hid)
    have hvalue : s.watchValue? id = some (w.decode s.objects) := congrArg (Option.map _) hget
    simp [hvalue]
  rw [hvalues, List.map_map]
  exact List.map_id' ids

theorem watchValue?_of_mem_valuesOf {ids : List Nat} {entry : Nat × Native}
    (h : entry ∈ s.valuesOf ids) : s.watchValue? entry.1 = some entry.2 := by
  obtain ⟨id, -, hentry⟩ := List.mem_filterMap.mp h
  obtain ⟨value, hvalue, rfl⟩ := Option.map_eq_some_iff.mp hentry
  exact hvalue

/-! ### The stages of an update -/

/-- The entries of the change list in an answer to an update. -/
def changesIn (response : Response) : List Fields :=
  response.fields.tuples "changelist"

/-- Rebuilds watches one after another. -/
def rebuildAll (depth : Nat) (ids : List Nat) : Task Unit :=
  ids.forM fun id ↦ do let _ ← (rebuildWatch depth id).run

/-- The stages of an update: `s₁` is the session after the changes, `s₂` the one after the rebuilds,
which take the exchanges `after`, and `s'` the one at the end. -/
structure UpdateCycle (depth : Nat) (s : Session) (changes : List Fields) (updated : List Variable)
    (s₁ : Session) (after : List Exchange) (s₂ s' : Session) : Prop where
  reports : updated = (List.range changes.length).filterMap (s.objects.reported? changes)
  holdings : s₁.holdings = { s.holdings with objects := s.objects.afterAll changes }
  bulletin : s₁.bulletin = s.bulletin ++ (updated.map Event.watchUpdated ++
    (updated.map Variable.root).eraseDups.map Event.rootUpdated)
  rebuilds : (rebuildAll depth (s.watches.restructuredBy (updated.map Variable.name))).RunsAlone s₁
    after () s₂
  refreshed : s' = (s.watches.affectedBy (updated.map Variable.name)).foldl reportWatch s₂

theorem recordChanges_stage (s : Session) (changes : List Fields) :
    ∃ updated s₁, s.recordChanges changes = (updated, s₁) ∧
      updated = (List.range changes.length).filterMap (s.objects.reported? changes) ∧
      s₁.holdings = { s.holdings with objects := s.objects.afterAll changes } ∧
      s₁.bulletin = s.bulletin ++ (updated.map Event.watchUpdated ++
        (updated.map Variable.root).eraseDups.map Event.rootUpdated) := by
  have hheld := holdings_recordChanges s changes
  rw [VariableTable.applyChanges_eq] at hheld
  refine ⟨_, _, rfl, congrArg Prod.fst (VariableTable.applyChanges_eq changes s.objects), hheld, ?_⟩
  rw [← distinctRoots_eq]
  refine bulletin_emitAll (fun event hevent ↦ ?_) { s with objects := _ }
  simp only [List.mem_append, List.mem_map] at hevent
  rcases hevent with ⟨v, -, rfl⟩ | ⟨root, -, rfl⟩ <;> trivial

/-- The watches that are refreshed after a rebuild are those that read something changed, because
those that are rebuilt are among them. -/
theorem refreshed_eq (h : NumberedTable.Ordered s.watches.watches.entries) (changed : List String) :
    let affected := s.watches.affectedBy changed
    (affected ++ (s.watches.restructuredBy changed).filter fun id ↦
      !affected.contains id).mergeSort (· ≤ ·) = affected := by
  intro affected
  have hnone : ((s.watches.restructuredBy changed).filter fun id ↦ !affected.contains id) = [] :=
    List.filter_eq_nil_iff.mpr fun id hid ↦ by
      simpa using (WatchRegistry.restructuredBy_sublist _ changed).subset hid
  rw [hnone, List.append_nil]
  refine List.mergeSort_of_pairwise ?_
  exact (WatchRegistry.idsReading_increasing h).imp fun hlt ↦ decide_eq_true (Nat.le_of_lt hlt)

/-- What an update does after the changes: rebuilds some watches and reports some values. -/
theorem refresh_stage {result : Except SessionError (List Variable)}
    (h : NumberedTable.Ordered s.watches.watches.entries)
    (hrun : (do
      if updated.isEmpty then return updated
      else
        Operation.lift (refreshWatches depth (updated.map Variable.name))
        return updated : Operation (List Variable)).run.RunsAlone s after result s') :
    result = .ok updated ∧ ∃ s₁,
      (rebuildAll depth (s.watches.restructuredBy (updated.map Variable.name))).RunsAlone s after ()
        s₁ ∧
      s' = (s.watches.affectedBy (updated.map Variable.name)).foldl reportWatch s₁ := by
  by_cases hempty : updated.isEmpty
  · rw [if_pos hempty] at hrun
    obtain ⟨rfl, rfl, rfl⟩ := Operation.runsAlone_pure_iff.mp hrun
    have hnone := fun vars ↦ s'.watches.idsReading_nil vars
    refine ⟨rfl, s', ?_⟩
    rw [List.isEmpty_iff.mp hempty, List.map_nil, WatchRegistry.restructuredBy,
      WatchRegistry.affectedBy, hnone, hnone]
    exact ⟨.done () s', rfl⟩
  · rw [if_neg hempty] at hrun
    obtain ⟨_, _, s₂, last, rfl, hrefresh, hlast⟩ := Operation.runsAlone_bind_lift_iff.mp hrun
    obtain ⟨rfl, rfl, rfl⟩ := Operation.runsAlone_pure_iff.mp hlast
    obtain ⟨_, found, _, rest, rfl, hquery, hrefresh⟩ := Task.runsAlone_bind_iff.mp hrefresh
    obtain ⟨rfl, rfl, rfl⟩ := Task.runsAlone_query_iff.mp hquery
    obtain ⟨between, _, s₁, last, rfl, hrebuild, hreport⟩ := Task.runsAlone_bind_iff.mp hrefresh
    obtain ⟨rfl, rfl⟩ := Task.runsAlone_update_iff.mp hreport
    rw [List.append_nil, List.append_nil, List.nil_append]
    exact ⟨rfl, s₁, hrebuild, congrArg (List.foldl reportWatch s₁) (refreshed_eq h _)⟩

/-- An update to which the debugger answers succeeds, and goes through the stages. -/
theorem updateCycle_of_runs {response : Response} {result : Except SessionError (List Variable)}
    (hs : s.Kindred) (hrun : (updateObjects depth).run.RunsAlone s
      (⟨(Request.varUpdate none .allValues).command, .ok response⟩ :: after) result s') :
    ∃ updated s₁ s₂, result = .ok updated ∧
      UpdateCycle depth s (changesIn response) updated s₁ after s₂ s' := by
  obtain ⟨_, _, s₀, htrace, hquiet, hrest⟩ | ⟨e, htrace, -⟩ :=
    Operation.runsAlone_bind_request_iff.mp hrun
  swap
  · cases htrace
  cases htrace
  obtain ⟨-, hobjects, hwatches, -⟩ := holdings_eq_iff.mp hquiet.holdings
  obtain ⟨_, updated, s₁, last, rfl, hstep, hlast⟩ := Operation.runsAlone_bind_lift_iff.mp hrest
  obtain ⟨rfl, hvalue, hstate⟩ := Task.runsAlone_step_iff.mp hstep
  obtain ⟨reported, s₂, hrecord, hreports, hheld, hbulletin⟩ :=
    recordChanges_stage s₀ (changesIn response)
  obtain rfl : updated = reported := hvalue.trans (congrArg Prod.fst hrecord)
  obtain rfl : s₁ = s₂ := hstate.trans (congrArg Prod.snd hrecord)
  have hwatches₁ : s₁.watches = s.watches := (congrArg Holdings.watches hheld).trans hwatches
  obtain ⟨rfl, s₂, hrebuilds, hrefreshed⟩ := refresh_stage (hwatches₁ ▸ hs.ordered) hlast
  rw [hwatches₁] at hrebuilds hrefreshed
  rw [hquiet.holdings, hobjects] at hheld
  rw [hobjects] at hreports
  rw [hquiet.bulletin] at hbulletin
  exact ⟨updated, s₁, s₂, rfl, hreports, hheld, hbulletin, hrebuilds, hrefreshed⟩

namespace UpdateCycle

variable (h : UpdateCycle depth s changes updated s₁ after s₂ s')
include h

theorem applyChanges_fst : (applyChanges changes s.objects).1 = updated := by
  rw [VariableTable.applyChanges_eq, h.reports]

theorem kindred (hs : s.Kindred) : s₁.Kindred :=
  (hs.objects (hs.linked.afterAll changes)).of_holdings h.holdings

theorem restocks (hs : s.Kindred) (hnamed : ∀ exchange ∈ after, exchange.Named) :
    s₁.Restocks s₂ :=
  (tends_rebuilds depth _).related (fun _ _ ↦ .of_rests) (fun _ _ _ ↦ .trans) h.rebuilds
    (h.kindred hs) hnamed

omit h in
/-- The watches that read an object that is reported. -/
theorem mem_affected_iff (hs : s.Kindred) {id : Nat} :
    id ∈ s.watches.affectedBy (updated.map Variable.name) ↔
      ∃ w, s.watches.get? id = some w ∧ ∃ v ∈ updated, v.name ∈ w.vars := by
  refine (WatchRegistry.mem_idsReading hs.ordered).trans (exists_congr fun w ↦ and_congr_right ?_)
  intro _
  simp only [List.mem_map]
  constructor
  · rintro ⟨name, hname, v, hv, rfl⟩
    exact ⟨v, hv, hname⟩
  · rintro ⟨v, hv, hname⟩
    exact ⟨v.name, hname, v, hv, rfl⟩

/-- The watches whose value is published are still registered then. -/
theorem registered (hs : s.Kindred) (hnamed : ∀ exchange ∈ after, exchange.Named) :
    ∀ id ∈ s.watches.affectedBy (updated.map Variable.name), (s₂.watches.get? id).isSome := by
  intro id hid
  obtain ⟨w, hget, -⟩ := (mem_affected_iff hs).mp hid
  have hwatches : s₁.watches = s.watches := congrArg Holdings.watches h.holdings
  exact (h.restocks hs hnamed).registered id (by rw [hwatches, hget]; rfl)

/-- A watch that is not published has the value that it had before the changes. -/
theorem decode_eq (hs : s.Kindred) {id : Nat} {w : Watch} (hget : s.watches.get? id = some w)
    (hid : id ∉ s.watches.affectedBy (updated.map Variable.name)) :
    w.decode (s.objects.afterAll changes) = w.decode s.objects := by
  obtain ⟨hvar, hkin⟩ := hs.of_get? hget
  refine Watch.decode_afterAll hkin hvar hs.linked fun v hv hname ↦ hid ?_
  rw [h.applyChanges_fst] at hv
  exact (mem_affected_iff hs).mpr ⟨w, hget, v, hv, hname⟩

end UpdateCycle

/-- A session publishes nothing but events about variable objects and watches. -/
def Publishes (s s' : Session) : Prop :=
  ∃ news, s'.events = s.events ++ news ∧ ∀ event ∈ news, event.AboutWatches

theorem indifferent_publishes : Indifferent Publishes where
  trans := by
    rintro s s₁ s' ⟨news, hnews, hall⟩ ⟨later, hlater, hall'⟩
    refine ⟨news ++ later, by rw [hlater, hnews, List.append_assoc], fun event hevent ↦ ?_⟩
    exact (List.mem_append.mp hevent).elim (hall event) (hall' event)
  hold s _ _ _ := ⟨[], (List.append_nil _).symm, List.forall_mem_nil _⟩
  report s event h := ⟨[event], rfl, fun _ hmem ↦ List.mem_singleton.mp hmem ▸ h⟩

/-- An update to which the debugger answers, in a session that arises from operations, succeeds and
publishes exactly this about objects and watches, and nothing else by itself: what the entries of
the change list report, in their order and each object as it is stored right after its entry; the
distinct roots of these objects, in the order of their first occurrence; the objects that come up
when watches are rebuilt; and then, in the order of their numbers, the value that each watch that
reads a reported object has at the end. Every watch whose value the change list changes is among
these, also where objects that it reads are removed without being reported. -/
theorem update_exact {response : Response} {result : Except SessionError (List Variable)}
    (hs : s.Arises) (hrun : (updateObjects depth).run.RunsAlone s
      (⟨(Request.varUpdate none .allValues).command, .ok response⟩ :: after) result s')
    (hnamed : ∀ exchange ∈ after, exchange.Named) :
    let changes := changesIn response
    ∃ (updated : List Variable) (s₁ s₂ : Session) (rebuilt : List Event)
      (decoded : List (Nat × Native)), result = .ok updated ∧
      updated = (List.range changes.length).filterMap (s.objects.reported? changes) ∧
      (∀ place v, s.objects.reported? changes place = some v →
        (∃ change, changes[place]? = some change ∧ change.text? "name" = some v.name) ∧
          (s.objects.afterAll (changes.take (place + 1))).get? v.name = some v) ∧
      s₁.holdings = { s.holdings with objects := s.objects.afterAll changes } ∧
      (rebuildAll depth (s.watches.restructuredBy (updated.map Variable.name))).RunsAlone s₁ after
        () s₂ ∧
      s₂.bulletin = s₁.bulletin ++ rebuilt ∧ (∀ event ∈ rebuilt, ∃ v, event = .watchUpdated v) ∧
      s'.holdings = s₂.holdings ∧
      s'.bulletin = s.bulletin ++ (updated.map Event.watchUpdated ++
        (updated.map Variable.root).eraseDups.map Event.rootUpdated ++ rebuilt ++
          decoded.map fun entry ↦ .watchDecoded entry.1 entry.2) ∧
      (decoded.map Prod.fst).Pairwise (· < ·) ∧
      (∀ id, id ∈ decoded.map Prod.fst ↔
        ∃ w, s.watches.get? id = some w ∧ ∃ v ∈ updated, v.name ∈ w.vars) ∧
      (∀ entry ∈ decoded, s'.watchValue? entry.1 = some entry.2) ∧
      (∀ id w, s.watches.get? id = some w →
        w.decode (s.objects.afterAll changes) ≠ w.decode s.objects → id ∈ decoded.map Prod.fst) ∧
      (updateObjects depth).run.Within Publishes := by
  intro changes
  have hk := hs.kindred
  obtain ⟨updated, s₁, s₂, rfl, h⟩ := updateCycle_of_runs hk hrun
  obtain ⟨rebuilt, hrebuilt, hobjects⟩ := (h.restocks hk hnamed).bulletin
  have hheld : s'.holdings = s₂.holdings := h.refreshed ▸ holdings_foldl holdings_reportWatch _ s₂
  have hids := map_fst_valuesOf (h.registered hk hnamed)
  refine ⟨updated, s₁, s₂, rebuilt,
    s₂.valuesOf (s.watches.affectedBy (updated.map Variable.name)), rfl, h.reports,
    fun place v ↦ VariableTable.get?_of_reported? hk.linked, h.holdings, h.rebuilds, hrebuilt,
    hobjects, hheld, ?_, ?_, fun id ↦ ?_, fun entry hentry ↦ ?_, fun id w hget hne ↦ ?_,
    indifferent_publishes.within_updateObjects depth⟩
  · rw [h.refreshed, bulletin_foldl_reportWatch, hrebuilt, h.bulletin]
    simp only [List.append_assoc]
  · rw [hids]
    exact WatchRegistry.idsReading_increasing hk.ordered
  · rw [hids]
    exact UpdateCycle.mem_affected_iff hk
  · rw [watchValue?_congr hheld]
    exact watchValue?_of_mem_valuesOf hentry
  · rw [hids]
    by_contra hid
    exact hne (h.decode_eq hk hget hid)

/-- Every run of an update begins with its request, and fails if that fails. -/
theorem trace_of_update {trace : List Exchange} {result : Except SessionError (List Variable)}
    (hrun : (updateObjects depth).run.RunsAlone s trace result s') :
    ∃ answer rest, trace = ⟨(Request.varUpdate none .allValues).command, answer⟩ :: rest ∧
      ∀ e, answer = .error e → result = .error e := by
  obtain ⟨response, rest, -, rfl, -⟩ | ⟨e, rfl, rfl, -⟩ :=
    Operation.runsAlone_bind_request_iff.mp hrun
  · exact ⟨.ok response, rest, rfl, nofun⟩
  · exact ⟨.error e, [], rfl, fun _ hsame ↦ Except.error.inj hsame ▸ rfl⟩

/-- The answer that lists the elements of an array of numbers. -/
def elementsOf (array : String) (values : List String) : Except SessionError Response :=
  .ok ⟨1, "done", NamedTable.ofList [("children", .results (values.zipIdx.map fun (value, index) ↦
    ("child", .tuple (NamedTable.ofList [("name", .text (array ++ "." ++ toString index)),
      ("exp", .text (toString index)), ("type", .text "int"), ("value", .text value)]))))]⟩

/-- The answer to an update by which an object got another type. -/
def retyped (name type count : String) : Response :=
  ⟨1, "done", NamedTable.ofList [("changelist", .values [.tuple (NamedTable.ofList
    [("name", .text name), ("type_changed", .text "true"), ("new_type", .text type),
      ("new_num_children", .text count)])])]⟩

/-- A vector of one number is watched. Its array gets another type, by which the object for its
element is gone, and the value of the watch is published. -/
theorem update_exact_of_new_type : ∃ (s s' : Session) (w : Watch) (value : Native)
    (result : Except SessionError (List Variable)), s.Arises ∧
      (updateObjects nestingLimit).run.RunsAlone s [⟨(Request.varUpdate none .allValues).command,
        .ok (retyped "var3" "int [2]" "2")⟩] result s' ∧
      s.watches.get? 1 = some w ∧ "var3.0" ∈ w.vars ∧ s.objects.contains "var3.0" ∧
      s'.objects.contains "var3.0" = false ∧ .watchDecoded 1 value ∈ s'.bulletin ∧
      s'.watchValue? 1 = some value := by
  have hplay : ((Errand.addWatch "v").operation.run.play
      [described "var1" "std::vector<int>" "{...}", described "var2" "long" "1",
        described "var3" "int [1]" "{7}", elementsOf "var3" ["7"], answered []]
      (Session.start .standard)).any fun (adding, _, s) ↦
        ((updateObjects nestingLimit).run.play [.ok (retyped "var3" "int [2]" "2")] s).any
          fun (updating, _, s') ↦
          decide ((∀ exchange ∈ adding, exchange.Named) ∧ updating.length = 1 ∧
            s.objects.contains "var3.0" ∧ s'.objects.contains "var3.0" = false) &&
          (s.watches.get? 1).any fun w ↦ decide ("var3.0" ∈ w.vars ∧
            (w.decode (s.objects.afterAll (changesIn (retyped "var3" "int [2]" "2")))).describe ≠
              (w.decode s.objects).describe) := by
    decide +kernel
  obtain ⟨adding, added, s, hadd, -, hplay⟩ := Task.exists_runsAlone_of_play hplay
  obtain ⟨updating, result, s', hupdate, hanswers, htest⟩ := Task.exists_runsAlone_of_play hplay
  dsimp only at htest
  rw [Bool.and_eq_true, decide_eq_true_eq, Option.any_eq_true] at htest
  obtain ⟨⟨hnamed, hlength, hthere, hgone⟩, w, hget, hw⟩ := htest
  obtain ⟨hreads, hdescribed⟩ := of_decide_eq_true hw
  obtain ⟨answer, rest, rfl, -⟩ := trace_of_update hupdate
  obtain ⟨rfl, -⟩ := List.cons_prefix_cons.mp hanswers
  obtain rfl : rest = [] := by simpa using hlength
  have harises : s.Arises := .perform (.start .standard) hadd.runs hnamed
  obtain ⟨updated, s₁, s₂, rebuilt, decoded, -, -, -, -, -, -, -, -, hbulletin, -, -, hvalues, hall,
    -⟩ := update_exact harises hupdate (List.forall_mem_nil _)
  have hmem := hall 1 w hget fun heq ↦ hdescribed (congrArg Native.describe heq)
  obtain ⟨⟨_, value⟩, hentry, rfl⟩ := List.mem_map.mp hmem
  refine ⟨s, s', w, value, result, harises, hupdate, hget, hreads, hthere, hgone, ?_,
    hvalues _ hentry⟩
  rw [hbulletin]
  exact List.mem_append_right _ (List.mem_append_right _ (List.mem_map_of_mem hentry))

end Session

end DebugLink
