import DebugLink.Proofs.Session.Building
import DebugLink.Proofs.Table.Numbered

/-!
Adding a watch. All that it can do is told by `Session.addWatch_cases`: it fails and leaves the
objects as they were, or it registers a watch that can be read and whose root objects are exactly
what became live. So a failed addition leaves nothing behind and a successful one owns what it
created (`Session.addWatch_owns`).
-/

set_option autoImplicit false

namespace DebugLink

open Variable

namespace Session

variable {s s' : Session} {trace : List Exchange} {depth : Nat} {expression : String}
  {result : Except SessionError Nat}

theorem addWatch_cases (hrun : (addWatch depth expression).run.Runs s trace result s')
    (hconf : Conforms s.objects.known trace) :
    (∃ e, result = .error e ∧ Accounts s trace s' []) ∨
      ∃ w s₁, Accounts s trace s₁ w.roots ∧ w.Stands s₁.objects.known ∧ result = .ok s.nextWatch ∧
        s' = (s₁.registerWatch w).2 := by
  obtain ⟨_, limit, s₀, rest, rfl, hlimit, hrest⟩ := Operation.runs_bind_lift_iff.mp hrun
  obtain ⟨rfl, -, hsame⟩ := Task.runs_query_iff.mp hlimit
  obtain rfl : s = s₀ := hsame.symm
  obtain ⟨before, ⟨built, list⟩, s₁, after, rfl, hbuild, hrest⟩ :=
    Operation.runs_bind_lift_iff.mp hrest
  rw [List.nil_append] at hconf ⊢
  have hbuilt := (adds_buildFrom (builds_build limit depth) s expression []).adds hbuild hconf.left
  obtain ⟨live, hacc, hlist, hok⟩ := hbuilt
  obtain rfl : list = live := hlist
  cases built with
  | ok w =>
    obtain ⟨hlive, hstands⟩ := hok w rfl
    obtain ⟨id, rfl, hregister⟩ := Operation.runs_lift_iff.mp hrest
    obtain ⟨rfl, rfl, rfl⟩ := Task.runs_step_iff.mp hregister
    rw [List.append_nil]
    exact .inr ⟨w, s₁, hacc.of_perm hlive, hstands, congrArg Except.ok hacc.nextWatch_eq, rfl⟩
  | error e =>
    obtain ⟨_, _, s₂, _, rfl, hdiscard, hthrow⟩ := Operation.runs_bind_lift_iff.mp hrest
    obtain ⟨rfl, rfl, rfl⟩ := Operation.runs_throw_iff.mp hthrow
    rw [List.append_nil] at hconf ⊢
    have hperm : list.Perm (list ++ []) := by rw [List.append_nil]
    obtain ⟨_, hacc', rfl, -⟩ := (owns_discardAll list).of_perm hperm hacc hdiscard hconf
    exact .inl ⟨e, rfl, hacc'⟩

/-- The value of a watch can be had as soon as it is registered. -/
theorem watchValue?_registerWatch (s : Session) (w : Watch) :
    (s.registerWatch w).2.watchValue? s.nextWatch = some (w.decode s.objects) := by
  have hget : (s.registerWatch w).2.watches.get? s.nextWatch = some w :=
    (NumberedTable.get?_insert _ _ _ _).trans (if_pos rfl)
  rw [watchValue?, hget]
  rfl

/-- Adding a watch owns what it creates. Begun alone, with a debugger that conforms, it either
fails, leaves the objects and the watches exactly as they were, and has deleted every object that it
created exactly once; or it registers a watch, and the new roots among the objects are exactly the
root objects of this watch, all distinct, while everything else that it created is deleted. -/
theorem addWatch_owns (hrun : (addWatch depth expression).run.Runs s trace result s')
    (hconf : Conforms s.objects.known trace) :
    (∀ e, result = .error e → s'.objects = s.objects ∧ s'.watches = s.watches ∧
      (deleted trace).Nodup ∧ (deleted trace).Perm (created trace)) ∧
    ∀ id, result = .ok id → ∃ w, s'.watches = (s.watches.insert id w).2 ∧
      (w.var :: w.derivedRoots).Nodup ∧
      (∀ name, name ∈ w.var :: w.derivedRoots ↔
        isRootName name ∧ name ∈ s'.objects.known ∧ name ∉ s.objects.known) ∧
      (created trace).Perm (deleted trace ++ w.var :: w.derivedRoots) := by
  rcases addWatch_cases hrun hconf with ⟨e, rfl, hacc⟩ | ⟨w, s₁, hacc, -, rfl, rfl⟩
  · refine ⟨fun _ _ ↦ ?_, by simp⟩
    obtain ⟨-, hobjects, hwatches, -⟩ := holdings_eq_iff.mp hacc.holdings_eq
    have hbalance : (created trace).Perm (deleted trace) := by simpa using hacc.balance
    exact ⟨hobjects, hwatches, hbalance.nodup_iff.mp hconf.nodup, hbalance.symm⟩
  · refine ⟨by simp, ?_⟩
    rintro _ ⟨⟩
    refine ⟨w, ?_, hacc.nodup hconf, fun name ↦ hacc.grown.mem_live_iff, hacc.balance⟩
    show (s₁.watches.insert s₁.nextWatch w).2 = _
    rw [hacc.watches_eq, hacc.nextWatch_eq]

/-- An answer whose fields are texts. -/
def answered (fields : List (String × String)) : Except SessionError Response :=
  .ok ⟨1, "done", NamedTable.ofList (fields.map fun field ↦ (field.1, .text field.2))⟩

/-- The answer to the creation of an object. -/
def described (name type value : String) : Except SessionError Response :=
  answered [("name", name), ("type", type), ("value", value)]

/-- A map of one entry, the value of which cannot be had. The walk ends there, its last object is
deleted, and the watch owns the others. -/
theorem addWatch_owns_of_early_end :
    ∃ trace s' w, (addWatch nestingLimit "m").run.Runs (Session.start .standard) trace (.ok 1) s' ∧
      Conforms [] trace ∧ deleted trace = ["var5"] ∧
        s'.watches = (WatchRegistry.empty.insert 1 w).2 ∧
          (∀ name, name ∈ w.var :: w.derivedRoots ↔
            isRootName name ∧ name ∈ s'.objects.known ∧ name ∉ []) ∧
            ["var1", "var2", "var3", "var4", "var5"].Perm ("var5" :: w.var :: w.derivedRoots) := by
  have hplay : ((addWatch nestingLimit "m").run.play
      [described "var1" "std::map<int, int>" "{...}", described "var2" "unsigned long" "1",
        described "var3" "void *" "0x10", described "var4" "void *" "0x0",
        described "var5" "int" "1", .error (.command 6 ""), answered []]
      (Session.start .standard)).any fun found ↦ found.2.1.toOption = some 1 ∧ Conforms [] found.1 ∧
        created found.1 = ["var1", "var2", "var3", "var4", "var5"] ∧
          deleted found.1 = ["var5"] := by
    decide +kernel
  obtain ⟨trace, result, s', hrun, htest⟩ := Task.exists_runs_of_play hplay
  obtain ⟨hresult, hconf, hcreated, hdeleted⟩ := of_decide_eq_true htest
  cases result with
  | error e => nomatch hresult
  | ok id =>
    obtain rfl := Option.some.inj hresult
    obtain ⟨w, hwatches, -, hroots, hbalance⟩ := (addWatch_owns hrun hconf).2 1 rfl
    rw [hcreated, hdeleted] at hbalance
    exact ⟨trace, s', w, hrun, hconf, hdeleted, hwatches, hroots, hbalance⟩

end Session

end DebugLink
