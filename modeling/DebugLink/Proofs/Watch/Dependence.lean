import DebugLink.Proofs.Table.Lookup
import DebugLink.Proofs.Watch.Kinship
import DebugLink.Watch.Registry

/-!
Decoding depends on the declared objects only. Two tables that hold the same objects for the names
that a watch lists give the same value, whatever else they hold, so a change of other objects never
changes it: neither a watch that the registry does not count among the affected ones nor, in a
session, one that a change list does not report anything about (`Watch.decode_depends_on_vars`).
-/

set_option autoImplicit false

namespace DebugLink

open Variable

/-- A watch that reads a changed object is among the affected ones. -/
theorem WatchRegistry.mem_affectedBy {registry : WatchRegistry} {id : Nat} {w : Watch}
    {changed : List String} (hget : registry.get? id = some w)
    (h : ∃ name ∈ w.vars, name ∈ changed) : id ∈ registry.affectedBy changed := by
  have hentry : (id, w) ∈ registry.watches.entries := Entries.mem_of_lookup hget
  refine List.mem_map.mpr ⟨(id, w), List.mem_filter.mpr ⟨hentry, ?_⟩, rfl⟩
  simpa only [List.any_eq_true, List.contains_iff_mem] using h

namespace Watch

/-- The value of a watch depends on the objects that it lists, and on nothing else: it is the same
in two tables that agree about these; in two tables that differ in a set of other objects only; if
the watch is not affected by the objects in which the tables differ; and before and after a change
list that reports none of its objects, if these are roots and children of roots that it lists, as
they are in a watch that was built. -/
theorem decode_depends_on_vars (w : Watch) :
    (∀ table table' : VariableTable, (∀ name ∈ w.vars, table.get? name = table'.get? name) →
      w.decode table = w.decode table') ∧
    (∀ (table table' : VariableTable) (changed : List String),
      (∀ name, name ∉ changed → table.get? name = table'.get? name) →
        (∀ name ∈ changed, name ∉ w.vars) → w.decode table = w.decode table') ∧
    (∀ (registry : WatchRegistry) id (table table' : VariableTable) (changed : List String),
      registry.get? id = some w → (∀ name, name ∉ changed → table.get? name = table'.get? name) →
        id ∉ registry.affectedBy changed → w.decode table = w.decode table') ∧
    ∀ (table : VariableTable) (changes : List Fields), w.Kin → isRootName w.var → table.Linked →
      (∀ v ∈ (Session.applyChanges changes table).1, v.name ∉ w.vars) →
        w.decode (table.afterAll changes) = w.decode table := by
  have hagree : ∀ table table' : VariableTable,
      (∀ name ∈ w.vars, table.get? name = table'.get? name) → w.decode table = w.decode table' := by
    intro table table' h
    refine w.decode_congr fun name hname ↦ ?_
    rw [VariableTable.reading?, h name hname, ← VariableTable.reading?]
  have hapart : ∀ (table table' : VariableTable) (changed : List String),
      (∀ name, name ∉ changed → table.get? name = table'.get? name) →
        (∀ name ∈ changed, name ∉ w.vars) → w.decode table = w.decode table' :=
    fun table table' changed hsame hdisjoint ↦ hagree table table' fun name hname ↦
      hsame name fun hchanged ↦ hdisjoint name hchanged hname
  refine ⟨hagree, hapart, ?_, fun _ _ hkin hvar hlinked ↦ decode_afterAll hkin hvar hlinked⟩
  intro registry id table table' changed hget hsame hunaffected
  refine hapart table table' changed hsame fun name hchanged hname ↦ ?_
  exact hunaffected (WatchRegistry.mem_affectedBy hget ⟨name, hname, hchanged⟩)

/-- A pair of a string and of a vector with one element. -/
def nestedWatch : Watch :=
  ⟨"var1", "p", .pair ⟨"var2", "(p).first", .str "var3"⟩
    ⟨"var4", "(p).second", .vector "var5" (some "var6") [⟨"var6.0", "0", .int⟩]⟩⟩

/-- The objects of `nestedWatch`, and one more. -/
def nestedTable (other : String) : VariableTable :=
  let object (name value : String) : Variable :=
    ⟨name, name, none, some value, 0, true, none, none⟩
  VariableTable.insert ([object "var1" "\x7b...\x7d", object "var2" "\x7b...\x7d",
    object "var3" "0x10 \"a\"", object "var4" "\x7b...\x7d", object "var5" "1",
    object "var6" "[1]", object "var6.0" "7"].foldl .insert .empty) (object "var7" other)

theorem decode_depends_on_vars_of_nested :
    nestedWatch.vars = ["var1", "var2", "var3", "var4", "var5", "var6", "var6.0"] ∧
      nestedWatch.decode (nestedTable "1") = nestedWatch.decode (nestedTable "2") := by
  have hvars : nestedWatch.vars = ["var1", "var2", "var3", "var4", "var5", "var6", "var6.0"] := by
    simp [nestedWatch, vars, Decoder.ownVars, Decoder.members]
  have hdisjoint : ∀ name ∈ ["var7"], name ∉ nestedWatch.vars := by
    rw [hvars]
    decide
  have hsame : ∀ name, name ∉ ["var7"] →
      (nestedTable "1").get? name = (nestedTable "2").get? name := by
    intro name hname
    have hne : name ≠ "var7" := by simpa using hname
    rw [nestedTable, nestedTable, VariableTable.get?_insert, VariableTable.get?_insert,
      if_neg hne, if_neg hne]
  exact ⟨hvars, (decode_depends_on_vars nestedWatch).2.1 _ _ ["var7"] hsame hdisjoint⟩

end Watch

end DebugLink
