import DebugLink.Proofs.Session.Accounts
import DebugLink.Proofs.Table.Numbered
import DebugLink.Proofs.Watch.Roots

/-!
Who owns the objects of a session. Between operations every object goes with a root that a
registered watch holds, and what one watch holds no other one does (`Kept`). A watch holds its own
object and its derived roots; one that could not be rebuilt, a stale one, has lost the derived roots
and holds its own object alone.

There is a lemma for each of the few changes that operations on watches are made of: to register a
watch, to remove one, to take away its derived roots (`Kept.strip`) and to give it new ones
(`Kept.restore`).
-/

set_option autoImplicit false

namespace DebugLink

open Variable VariableTable

/-- The roots that a watch holds. -/
def heldRoots (stale : List Nat) (entry : Nat × Watch) : List String :=
  if entry.1 ∈ stale then [entry.2.var] else entry.2.roots

/-- The entries of the watches of a session. -/
def Holdings.entries (h : Holdings) : List (Nat × Watch) :=
  h.watches.watches.entries

/-- What is true of the holdings between operations, where the names of all objects that were ever
created are given and some watches are stale. If `exact` holds, also every watch that is not stale
can be read. -/
structure Kept (exact : Prop) (stale : List Nat) (used : List String) (h : Holdings) : Prop where
  orderly : h.objects.Orderly
  ordered : NumberedTable.Ordered h.entries
  next : ∀ entry ∈ h.entries, entry.1 < h.nextWatch
  staleNext : ∀ id ∈ stale, id < h.nextWatch
  /-- No root is held twice. -/
  distinct : (h.entries.flatMap fun entry ↦ entry.2.roots).Nodup
  used : ∀ entry ∈ h.entries, ∀ root ∈ entry.2.roots, root ∈ used ∧ isRootName root
  /-- Every object goes with a root that is held. -/
  roots : ∀ name ∈ h.objects.known, ∃ entry ∈ h.entries, rootOf name ∈ heldRoots stale entry
  /-- What is held is there. -/
  held : ∀ entry ∈ h.entries, ∀ root ∈ heldRoots stale entry, root ∈ h.objects.known
  stands : exact → ∀ entry ∈ h.entries, entry.1 ∉ stale → entry.2.Stands h.objects.known

theorem heldRoots_subset (stale : List Nat) (entry : Nat × Watch) :
    heldRoots stale entry ⊆ entry.2.roots := by
  unfold heldRoots
  split_ifs
  · exact List.cons_subset_cons _ (List.nil_subset _)
  · exact fun _ ↦ id

/-- Every watch holds its own object. -/
theorem var_mem_heldRoots (stale : List Nat) (entry : Nat × Watch) :
    entry.2.var ∈ heldRoots stale entry := by
  unfold heldRoots
  split_ifs
  · exact List.mem_cons_self
  · exact List.mem_cons_self

theorem heldRoots_congr {stale stale' : List Nat} {entry : Nat × Watch}
    (h : entry.1 ∈ stale ↔ entry.1 ∈ stale') : heldRoots stale entry = heldRoots stale' entry := by
  unfold heldRoots
  simp only [h]

theorem heldRoots_of_notMem {stale : List Nat} {entry : Nat × Watch} (h : entry.1 ∉ stale) :
    heldRoots stale entry = entry.2.roots :=
  if_neg h

theorem heldRoots_of_mem {stale : List Nat} {entry : Nat × Watch} (h : entry.1 ∈ stale) :
    heldRoots stale entry = [entry.2.var] :=
  if_pos h

namespace Kept

variable {exact : Prop} {stale stale' : List Nat} {used used' : List String} {h : Holdings}
  {id : Nat} {w old : Watch} {name : String} {table : VariableTable}

theorem start (exact : Prop) (options : SessionOptions) :
    Kept exact [] [] (Session.start options).holdings where
  orderly := List.forall_mem_nil _
  ordered := List.Pairwise.nil
  next := List.forall_mem_nil _
  staleNext := List.forall_mem_nil _
  distinct := List.nodup_nil
  used := List.forall_mem_nil _
  roots := List.forall_mem_nil _
  held := List.forall_mem_nil _
  stands := fun _ ↦ List.forall_mem_nil _

theorem mono (hk : Kept exact stale used h) (hused : used ⊆ used') : Kept exact stale used' h :=
  { hk with
    used := fun entry hentry root hroot ↦ (hk.used entry hentry root hroot).imp_left (hused ·) }

/-- An object that goes with a root that was ever created has its root among the used ones. -/
theorem rootOf_mem_used (hk : Kept exact stale used h) (hname : name ∈ h.objects.known) :
    rootOf name ∈ used := by
  obtain ⟨entry, hentry, hroot⟩ := hk.roots name hname
  exact (hk.used entry hentry _ (heldRoots_subset stale entry hroot)).1

/-- What is fresh to all objects that were ever created is fresh to what is known. -/
theorem conforms {trace : List Exchange} (hk : Kept exact stale used h)
    (hconf : Conforms used trace) : Conforms h.objects.known trace where
  proper := hconf.proper
  nodup := hconf.nodup
  fresh := fun name hname ↦
    hconf.notMem_created (hk.rootOf_mem_used hname) (isRootName_rootOf name)

/-- A watch and the other ones. -/
theorem perm_entries (hk : Kept exact stale used h) (hget : h.watches.get? id = some w) :
    h.entries.Perm ((id, w) :: h.entries.filter fun entry ↦ entry.1 ≠ id) :=
  NumberedTable.perm_of_get? hk.ordered hget

theorem mem_entries (hk : Kept exact stale used h) (hget : h.watches.get? id = some w) :
    (id, w) ∈ h.entries :=
  (NumberedTable.get?_eq_some_iff hk.ordered).mp hget

theorem eq_of_mem (hk : Kept exact stale used h) (hget : h.watches.get? id = some w)
    {entry : Nat × Watch} (hentry : entry ∈ h.entries) (hid : entry.1 = id) : entry = (id, w) := by
  rcases List.mem_cons.mp ((hk.perm_entries hget).mem_iff.mp hentry) with heq | hmem
  · exact heq
  · exact absurd hid (of_decide_eq_true (List.mem_filter.mp hmem).2)

/-- The roots of a watch, and those of the other ones. -/
theorem nodup_roots (hk : Kept exact stale used h) (hget : h.watches.get? id = some w) :
    (w.roots ++ (h.entries.filter fun entry ↦ entry.1 ≠ id).flatMap fun entry ↦
      entry.2.roots).Nodup := by
  have hperm := (hk.perm_entries hget).flatMap_right fun entry ↦ entry.2.roots
  exact hperm.nodup_iff.mp hk.distinct

/-- What a watch holds is not among the roots of another one. -/
theorem disjoint (hk : Kept exact stale used h) (hget : h.watches.get? id = some w)
    {entry : Nat × Watch} (hentry : entry ∈ h.entries) (hne : entry.1 ≠ id) {root : String}
    (hroot : root ∈ entry.2.roots) : root ∉ w.roots := by
  intro hmem
  refine List.disjoint_of_nodup_append (hk.nodup_roots hget) hmem ?_
  exact List.mem_flatMap.mpr ⟨entry, List.mem_filter.mpr ⟨hentry, decide_eq_true hne⟩, hroot⟩

/-- Objects of other watches stay when some roots of a watch are removed. -/
theorem mem_known_of_removed (hk : Kept exact stale used h) (hget : h.watches.get? id = some w)
    {gone : List String} (hgone : gone ⊆ w.roots) :
    name ∈ (gone.foldl VariableTable.removeTree h.objects).known ↔
      name ∈ h.objects.known ∧ rootOf name ∉ gone :=
  mem_known_foldl_removeTree fun _ hroot ↦
    (hk.used _ (hk.mem_entries hget) _ (hgone hroot)).2

/-- Which watches are stale matters only for those that are registered. -/
theorem of_stale_iff (hk : Kept exact stale used h) (hnext : ∀ id ∈ stale', id < h.nextWatch)
    (hiff : ∀ entry ∈ h.entries, entry.1 ∈ stale ↔ entry.1 ∈ stale') :
    Kept exact stale' used h :=
  { hk with
    staleNext := hnext
    roots := fun name hname ↦ by
      obtain ⟨entry, hentry, hroot⟩ := hk.roots name hname
      exact ⟨entry, hentry, heldRoots_congr (hiff entry hentry) ▸ hroot⟩
    held := fun entry hentry root hroot ↦
      hk.held entry hentry root (heldRoots_congr (hiff entry hentry) ▸ hroot)
    stands := fun hexact entry hentry hnot ↦
      hk.stands hexact entry hentry fun hmem ↦ hnot ((hiff entry hentry).mp hmem) }

/-! ### Removing -/

/-- A watch is removed together with what it holds. -/
theorem remove (hk : Kept exact stale used h) (hget : h.watches.get? id = some w) :
    Kept exact stale used { h with
      watches := (h.watches.remove id).2
      objects := w.roots.foldl VariableTable.removeTree h.objects } := by
  have hmem : ∀ {name}, name ∈ (w.roots.foldl VariableTable.removeTree h.objects).known ↔
      name ∈ h.objects.known ∧ rootOf name ∉ w.roots :=
    hk.mem_known_of_removed hget (List.Subset.refl _)
  have hother : ∀ {entry}, entry ∈ h.entries.filter (fun entry ↦ entry.1 ≠ id) →
      entry ∈ h.entries ∧ ∀ {root}, root ∈ entry.2.roots → root ∉ w.roots := by
    intro entry hentry
    obtain ⟨hentry, hne⟩ := List.mem_filter.mp hentry
    exact ⟨hentry, fun hroot ↦ hk.disjoint hget hentry (of_decide_eq_true hne) hroot⟩
  exact {
    orderly := hk.orderly.foldl_removeTree _
    ordered := hk.ordered.filter _
    next := fun entry hentry ↦ hk.next entry (hother hentry).1
    staleNext := hk.staleNext
    distinct := (hk.nodup_roots hget).of_append_right
    used := fun entry hentry ↦ hk.used entry (hother hentry).1
    roots := by
      intro name hname
      obtain ⟨hname, hnot⟩ := hmem.mp hname
      obtain ⟨entry, hentry, hroot⟩ := hk.roots name hname
      refine ⟨entry, List.mem_filter.mpr ⟨hentry, decide_eq_true fun hid ↦ hnot ?_⟩, hroot⟩
      have hin := heldRoots_subset stale entry hroot
      rwa [hk.eq_of_mem hget hentry hid] at hin
    held := by
      intro entry hentry root hroot
      obtain ⟨hentry, hdisjoint⟩ := hother hentry
      have hin := heldRoots_subset stale entry hroot
      refine hmem.mpr ⟨hk.held entry hentry root hroot, ?_⟩
      rw [rootOf_eq_self (hk.used entry hentry root hin).2]
      exact hdisjoint hin
    stands := by
      intro hexact entry hentry hstale
      obtain ⟨hentry, hdisjoint⟩ := hother hentry
      have hvar := (hk.used entry hentry entry.2.var List.mem_cons_self).2
      refine (hk.stands hexact entry hentry hstale).mono fun name hname hroot ↦ ?_
      rw [rootOf_eq_self hvar] at hroot
      exact hmem.mpr ⟨hname, hdisjoint hroot⟩ }

/-- The derived roots of a watch are taken away, which makes it stale. -/
theorem strip (hk : Kept exact stale used h) (hget : h.watches.get? id = some w) :
    Kept exact (id :: stale) used { h with
      objects := w.derivedRoots.foldl VariableTable.removeTree h.objects } := by
  have hentryId := hk.mem_entries hget
  have hmem : ∀ {name}, name ∈ (w.derivedRoots.foldl VariableTable.removeTree h.objects).known ↔
      name ∈ h.objects.known ∧ rootOf name ∉ w.derivedRoots :=
    hk.mem_known_of_removed hget fun _ hroot ↦ List.mem_cons_of_mem _ hroot
  have hself : heldRoots (id :: stale) (id, w) = [w.var] := heldRoots_of_mem List.mem_cons_self
  have hsame : ∀ {entry : Nat × Watch}, entry.1 ≠ id →
      heldRoots (id :: stale) entry = heldRoots stale entry := fun hne ↦
    heldRoots_congr (by simp [hne])
  have hdisjoint : ∀ {entry}, entry ∈ h.entries → entry.1 ≠ id → ∀ {root}, root ∈ entry.2.roots →
      root ∉ w.derivedRoots := fun hentry hne _ hroot hgone ↦
    hk.disjoint hget hentry hne hroot (List.mem_cons_of_mem _ hgone)
  refine { hk with
    orderly := hk.orderly.foldl_removeTree _
    staleNext := ?_
    roots := ?_
    held := ?_
    stands := ?_ }
  · intro other hother
    rcases List.mem_cons.mp hother with rfl | hstale
    · exact hk.next _ hentryId
    · exact hk.staleNext other hstale
  · intro name hname
    obtain ⟨hname, hnot⟩ := hmem.mp hname
    obtain ⟨entry, hentry, hroot⟩ := hk.roots name hname
    refine ⟨entry, hentry, ?_⟩
    by_cases hid : entry.1 = id
    · obtain rfl := hk.eq_of_mem hget hentry hid
      rw [hself, List.mem_singleton]
      exact (List.mem_cons.mp (heldRoots_subset stale _ hroot)).resolve_right hnot
    · rwa [hsame hid]
  · intro entry hentry root hroot
    by_cases hid : entry.1 = id
    · obtain rfl := hk.eq_of_mem hget hentry hid
      rw [hself, List.mem_singleton] at hroot
      subst hroot
      refine hmem.mpr ⟨hk.held _ hentry _ (var_mem_heldRoots stale (id, w)), ?_⟩
      rw [rootOf_eq_self (hk.used _ hentry _ List.mem_cons_self).2]
      exact (List.nodup_cons.mp (hk.nodup_roots hget).of_append_left).1
    · rw [hsame hid] at hroot
      have hin := heldRoots_subset stale entry hroot
      refine hmem.mpr ⟨hk.held entry hentry root hroot, ?_⟩
      rw [rootOf_eq_self (hk.used entry hentry root hin).2]
      exact hdisjoint hentry hid hin
  · intro hexact entry hentry hstale
    rw [List.mem_cons, not_or] at hstale
    have hvar := (hk.used entry hentry entry.2.var List.mem_cons_self).2
    refine (hk.stands hexact entry hentry hstale.2).mono fun name hname hroot ↦ ?_
    rw [rootOf_eq_self hvar] at hroot
    exact hmem.mpr ⟨hname, hdisjoint hentry hstale.1 hroot⟩

/-! ### Adding -/

/-- A new watch is registered together with its objects. -/
theorem register (hk : Kept exact stale used h) (hgrown : Grown h.objects table w.roots)
    (horderly : table.Orderly) (hstands : w.Stands table.known) (hnodup : w.roots.Nodup)
    (hfresh : w.roots.Disjoint used) (hused : used ⊆ used') (hlive : w.roots ⊆ used') :
    Kept exact stale used' { h with
      objects := table
      watches := (h.watches.insert h.nextWatch w).2
      nextWatch := h.nextWatch + 1 } := by
  have hothers : h.entries.filter (fun entry ↦ entry.1 ≠ h.nextWatch) = h.entries :=
    List.filter_eq_self.mpr fun entry hentry ↦ decide_eq_true (Nat.ne_of_lt (hk.next entry hentry))
  have hperm : (NumberedTable.put h.nextWatch w h.entries).Perm
      ((h.nextWatch, w) :: h.entries) := by
    have hput := NumberedTable.perm_put hk.ordered h.nextWatch w
    rwa [hothers] at hput
  have hnot : h.nextWatch ∉ stale := fun hstale ↦ Nat.lt_irrefl _ (hk.staleNext _ hstale)
  have hself : heldRoots stale (h.nextWatch, w) = w.roots := heldRoots_of_notMem hnot
  exact {
    orderly := horderly
    ordered := hk.ordered.put _ _
    next := by
      intro entry hentry
      rcases List.mem_cons.mp (hperm.mem_iff.mp hentry) with rfl | hold
      · exact Nat.lt_succ_self _
      · exact Nat.lt_succ_of_lt (hk.next entry hold)
    staleNext := fun id hid ↦ Nat.lt_succ_of_lt (hk.staleNext id hid)
    distinct := by
      refine (hperm.flatMap_right _).nodup_iff.mpr (List.nodup_append.mpr ⟨hnodup, hk.distinct, ?_⟩)
      rintro root hroot _ hold rfl
      obtain ⟨entry, hentry, hmem⟩ := List.mem_flatMap.mp hold
      exact hfresh hroot (hk.used entry hentry root hmem).1
    used := by
      intro entry hentry root hroot
      rcases List.mem_cons.mp (hperm.mem_iff.mp hentry) with rfl | hold
      · exact ⟨hlive hroot, hgrown.roots root hroot⟩
      · exact (hk.used entry hold root hroot).imp_left (hused ·)
    roots := by
      intro name hname
      rcases hgrown.rootOf_mem hname with hold | hnew
      · obtain ⟨entry, hentry, hroot⟩ := hk.roots name hold
        exact ⟨entry, hperm.mem_iff.mpr (List.mem_cons_of_mem _ hentry), hroot⟩
      · exact ⟨_, hperm.mem_iff.mpr List.mem_cons_self, hself ▸ hnew⟩
    held := by
      intro entry hentry root hroot
      rcases List.mem_cons.mp (hperm.mem_iff.mp hentry) with rfl | hold
      · exact hgrown.live_subset (hself ▸ hroot)
      · exact hgrown.subset (hk.held entry hold root hroot)
    stands := by
      intro hexact entry hentry hstale
      rcases List.mem_cons.mp (hperm.mem_iff.mp hentry) with rfl | hold
      · exact hstands
      · exact (hk.stands hexact entry hold hstale).mono fun _ hname _ ↦ hgrown.subset hname }

/-- A stale watch gets new derived roots and is stale no more. -/
theorem restore (hk : Kept exact (id :: stale) used h) (hget : h.watches.get? id = some old)
    (hvar : w.var = old.var) (hgrown : Grown h.objects table w.derivedRoots)
    (horderly : table.Orderly) (hstands : w.Stands table.known) (hnodup : w.derivedRoots.Nodup)
    (hfresh : w.derivedRoots.Disjoint used) (hused : used ⊆ used')
    (hlive : w.derivedRoots ⊆ used') :
    Kept exact (stale.filter (· ≠ id)) used' { h with
      objects := table
      watches := (h.watches.insert id w).2 } := by
  have hperm : (NumberedTable.put id w h.entries).Perm
      ((id, w) :: h.entries.filter fun entry ↦ entry.1 ≠ id) :=
    NumberedTable.perm_put hk.ordered id w
  have hcases : ∀ {entry}, entry ∈ NumberedTable.put id w h.entries →
      entry = (id, w) ∨ entry ∈ h.entries ∧ entry.1 ≠ id := by
    intro entry hentry
    rcases List.mem_cons.mp (hperm.mem_iff.mp hentry) with heq | hold
    · exact .inl heq
    · exact .inr ((List.mem_filter.mp hold).imp_right of_decide_eq_true)
  have hother : ∀ {entry : Nat × Watch}, entry ∈ h.entries → entry.1 ≠ id →
      entry ∈ NumberedTable.put id w h.entries := fun hentry hne ↦
    hperm.mem_iff.mpr (List.mem_cons_of_mem _ (List.mem_filter.mpr ⟨hentry, decide_eq_true hne⟩))
  have hself : heldRoots (stale.filter (· ≠ id)) (id, w) = w.roots :=
    heldRoots_of_notMem (by simp)
  have hsame : ∀ {entry : Nat × Watch}, entry.1 ≠ id →
      heldRoots (stale.filter (· ≠ id)) entry = heldRoots (id :: stale) entry := fun hne ↦
    heldRoots_congr (by simp [hne])
  have hold := hk.mem_entries hget
  have holdSelf : heldRoots (id :: stale) (id, old) = [old.var] :=
    heldRoots_of_mem List.mem_cons_self
  have hknown : w.var ∈ h.objects.known := by
    rw [hvar]
    exact hk.held _ hold _ (holdSelf ▸ List.mem_cons_self)
  have hvarUsed := hk.used _ hold old.var List.mem_cons_self
  have hrest := hk.nodup_roots hget
  exact {
    orderly := horderly
    ordered := hk.ordered.put _ _
    next := by
      intro entry hentry
      rcases hcases hentry with rfl | ⟨hentry, -⟩
      · exact hk.next (id, old) hold
      · exact hk.next entry hentry
    staleNext := fun other hother ↦
      hk.staleNext other (List.mem_cons_of_mem _ (List.mem_of_mem_filter hother))
    distinct := by
      refine (hperm.flatMap_right _).nodup_iff.mpr (List.nodup_append.mpr ⟨?_, ?_, ?_⟩)
      · refine List.nodup_cons.mpr ⟨fun hmem ↦ hfresh hmem (hvar ▸ hvarUsed.1), hnodup⟩
      · exact hrest.of_append_right
      · rintro root hroot _ hmem rfl
        rcases List.mem_cons.mp hroot with rfl | hroot
        · refine List.disjoint_of_nodup_append hrest ?_ hmem
          rw [hvar]
          exact List.mem_cons_self
        · obtain ⟨entry, hentry, hmem⟩ := List.mem_flatMap.mp hmem
          exact hfresh hroot (hk.used entry (List.mem_of_mem_filter hentry) root hmem).1
    used := by
      intro entry hentry root hroot
      rcases hcases hentry with rfl | ⟨hentry, -⟩
      · rcases List.mem_cons.mp hroot with rfl | hroot
        · rw [hvar]
          exact hvarUsed.imp_left (hused ·)
        · exact ⟨hlive hroot, hgrown.roots root hroot⟩
      · exact (hk.used entry hentry root hroot).imp_left (hused ·)
    roots := by
      intro name hname
      rcases hgrown.rootOf_mem hname with hmem | hnew
      · obtain ⟨entry, hentry, hroot⟩ := hk.roots name hmem
        by_cases hid : entry.1 = id
        · rw [hk.eq_of_mem hget hentry hid, holdSelf, List.mem_singleton] at hroot
          refine ⟨_, hperm.mem_iff.mpr List.mem_cons_self, ?_⟩
          rw [hself, hroot, ← hvar]
          exact List.mem_cons_self
        · exact ⟨entry, hother hentry hid, hsame hid ▸ hroot⟩
      · refine ⟨_, hperm.mem_iff.mpr List.mem_cons_self, ?_⟩
        rw [hself]
        exact List.mem_cons_of_mem _ hnew
    held := by
      intro entry hentry root hroot
      rcases hcases hentry with rfl | ⟨hentry, hne⟩
      · rw [hself] at hroot
        rcases List.mem_cons.mp hroot with rfl | hroot
        · exact hgrown.subset hknown
        · exact hgrown.live_subset hroot
      · exact hgrown.subset (hk.held entry hentry root (hsame hne ▸ hroot))
    stands := by
      intro hexact entry hentry hstale
      rcases hcases hentry with rfl | ⟨hentry, hne⟩
      · exact hstands
      · have hnot : entry.1 ∉ id :: stale := by simpa [hne] using hstale
        exact (hk.stands hexact entry hentry hnot).mono fun _ hname _ ↦ hgrown.subset hname }

/-! ### Change lists -/

/-- Changes leave the roots alone; those of values and scopes leave all objects. -/
theorem change (hk : Kept exact stale used h) (horderly : table.Orderly)
    (hsubset : table.known ⊆ h.objects.known)
    (hroots : ∀ name, isRootName name → (name ∈ table.known ↔ name ∈ h.objects.known))
    (hsame : exact → table.known = h.objects.known) :
    Kept exact stale used { h with objects := table } :=
  { hk with
    orderly := horderly
    roots := fun name hname ↦ hk.roots name (hsubset hname)
    held := fun entry hentry root hroot ↦
      (hroots root (hk.used entry hentry root (heldRoots_subset stale entry hroot)).2).mpr
        (hk.held entry hentry root hroot)
    stands := fun hexact entry hentry hstale ↦ by
      rw [hsame hexact]
      exact hk.stands hexact entry hentry hstale }

end Kept

end DebugLink
