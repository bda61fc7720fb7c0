import DebugLink.Proofs.Table.Lookup
import DebugLink.Table.Numbered
import Mathlib.Data.List.Perm.Basic
import Mathlib.Tactic.SplitIfs

/-!
The laws of numbered tables. Setting a value is putting it in front of what has other numbers, up to
the order of the entries (`perm_put`), and what has other numbers is all that removing leaves. Each
operation changes what is found under one number (`get?_insert`, `get?_erase`, `get?_modify`), and
what is found under each number determines a table (`ext_of_ordered`).
-/

set_option autoImplicit false

namespace DebugLink.NumberedTable

open Entries

variable {α : Type} {number other : Nat} {value : α} {entries : List (Nat × α)}

/-- Entries in increasing order of their numbers. -/
def Ordered (entries : List (Nat × α)) : Prop :=
  entries.Pairwise fun entry entry' ↦ entry.1 < entry'.1

/-- A part of ordered entries is ordered. -/
theorem Ordered.filter (h : Ordered entries) (keep : Nat × α → Bool) :
    Ordered (entries.filter keep) :=
  List.Pairwise.filter keep h

/-- What has other numbers does not depend on the value of a number. -/
theorem filter_put (number : Nat) (value : α) (entries : List (Nat × α)) :
    (put number value entries).filter (fun entry ↦ entry.1 ≠ number) =
      entries.filter fun entry ↦ entry.1 ≠ number := by
  induction entries with
  | nil => simp [put]
  | cons entry rest ih =>
    rw [put]
    split_ifs with hlt heq
    · simp
    · simp [heq]
    · rw [List.filter_cons_of_pos (by simpa using heq),
        List.filter_cons_of_pos (by simpa using heq), ih]

/-- To put an entry removes the one under its number and adds the new one. -/
theorem perm_put (h : Ordered entries) (number : Nat) (value : α) :
    (put number value entries).Perm
      ((number, value) :: entries.filter fun entry ↦ entry.1 ≠ number) := by
  induction entries with
  | nil => exact .refl _
  | cons entry rest ih =>
    obtain ⟨hfirst, hrest⟩ := List.pairwise_cons.mp h
    rw [put]
    split_ifs with hlt heq
    · refine (List.perm_cons _).mpr (.of_eq (List.filter_eq_self.mpr fun other hother ↦ ?_).symm)
      have hge : entry.1 ≤ other.1 := by
        rcases List.mem_cons.mp hother with rfl | hmem
        · exact Nat.le_refl _
        · exact Nat.le_of_lt (hfirst other hmem)
      simp only [decide_eq_true_eq]
      omega
    · have hkept : rest.filter (fun other ↦ other.1 ≠ number) = rest :=
        List.filter_eq_self.mpr fun other hother ↦ by
          have := hfirst other hother
          simp only [decide_eq_true_eq]
          omega
      rw [List.filter_cons_of_neg (by simpa using heq), hkept]
    · rw [List.filter_cons_of_pos (by simpa using heq)]
      exact ((ih hrest).cons entry).trans (List.Perm.swap _ _ _)

/-- To put an entry keeps the order. -/
theorem Ordered.put (h : Ordered entries) (number : Nat) (value : α) :
    Ordered (put number value entries) := by
  induction entries with
  | nil => exact List.pairwise_singleton _ _
  | cons entry rest ih =>
    obtain ⟨hfirst, hrest⟩ := List.pairwise_cons.mp h
    rw [NumberedTable.put]
    split_ifs with hlt heq
    · refine List.pairwise_cons.mpr ⟨fun other hother ↦ ?_, h⟩
      rcases List.mem_cons.mp hother with rfl | hmem
      · exact hlt
      · exact Nat.lt_trans hlt (hfirst other hmem)
    · exact List.pairwise_cons.mpr ⟨fun other hother ↦ heq ▸ hfirst other hother, hrest⟩
    · refine List.pairwise_cons.mpr ⟨fun other hother ↦ ?_, ih hrest⟩
      rcases List.mem_cons.mp ((perm_put hrest number value).mem_iff.mp hother) with rfl | hmem
      · show entry.1 < number
        omega
      · exact hfirst other (List.mem_of_mem_filter hmem)

/-- In an ordered table what is found under a number is the entry of that number. -/
theorem get?_eq_some_iff {table : NumberedTable α} (h : Ordered table.entries) :
    table.get? number = some value ↔ (number, value) ∈ table.entries := by
  unfold get?
  rw [List.lookup_eq_some_iff]
  constructor
  · rintro ⟨earlier, later, hsplit, -⟩
    rw [hsplit]
    exact List.mem_append_right _ List.mem_cons_self
  · intro hmem
    obtain ⟨earlier, later, hsplit⟩ := List.mem_iff_append.mp hmem
    refine ⟨earlier, later, hsplit, fun entry hentry ↦ ?_⟩
    rw [hsplit] at h
    have hlt := (List.pairwise_append.mp h).2.2 entry hentry _ List.mem_cons_self
    exact bne_iff_ne.mpr (Nat.ne_of_gt hlt)

/-- The entry of a number, and what has other numbers. -/
theorem perm_of_get? {table : NumberedTable α} (h : Ordered table.entries)
    (hget : table.get? number = some value) :
    table.entries.Perm
      ((number, value) :: table.entries.filter fun entry ↦ entry.1 ≠ number) := by
  obtain ⟨earlier, later, hsplit⟩ := List.mem_iff_append.mp ((get?_eq_some_iff h).mp hget)
  rw [hsplit] at h ⊢
  obtain ⟨-, hlater, hbetween⟩ := List.pairwise_append.mp h
  have hearlier : earlier.filter (fun entry ↦ entry.1 ≠ number) = earlier :=
    List.filter_eq_self.mpr fun entry hentry ↦
      decide_eq_true (Nat.ne_of_lt (hbetween entry hentry _ List.mem_cons_self))
  have hkept : later.filter (fun entry ↦ entry.1 ≠ number) = later :=
    List.filter_eq_self.mpr fun entry hentry ↦
      decide_eq_true (Nat.ne_of_gt ((List.pairwise_cons.mp hlater).1 entry hentry))
  rw [List.filter_append, List.filter_cons_of_neg (by simp), hearlier, hkept]
  exact List.perm_middle

/-- An erased entry might as well not have been inserted. -/
theorem erase_insert (table : NumberedTable α) (number : Nat) (value : α) :
    (table.insert number value).erase number = table.erase number :=
  congrArg NumberedTable.mk (filter_put number value table.entries)

/-- Nothing is found under a number that no entry has. -/
theorem get?_eq_none_iff {table : NumberedTable α} :
    table.get? number = none ↔ ∀ entry ∈ table.entries, entry.1 ≠ number := by
  unfold get?
  rw [List.lookup_eq_none_iff]
  simp only [bne_iff_ne, ne_comm]

/-- Under its number the new value is found, under others what was found before. -/
theorem lookup_put (number other : Nat) (value : α) (entries : List (Nat × α)) :
    (put number value entries).lookup other =
      if other = number then some value else entries.lookup other := by
  induction entries with
  | nil => rw [put, lookup_entry_cons]
  | cons entry rest ih =>
    rw [put]
    by_cases hlt : number < entry.1
    · rw [if_pos hlt, lookup_entry_cons]
    · rw [if_neg hlt]
      by_cases heq : entry.1 = number
      · rw [if_pos heq, lookup_entry_cons, lookup_entry_cons, heq]
        split_ifs <;> rfl
      · rw [if_neg heq, lookup_entry_cons, lookup_entry_cons, ih]
        by_cases hother : other = number
        · have hne : other ≠ entry.1 := fun h ↦ heq (h.symm.trans hother)
          rw [if_neg hne, if_pos hother, if_pos hother]
        · rw [if_neg hother, if_neg hother]

/-- Under its number the new value is found, under others what was found before. -/
theorem get?_insert (table : NumberedTable α) (number other : Nat) (value : α) :
    (table.insert number value).get? other =
      if other = number then some value else table.get? other :=
  lookup_put number other value table.entries

/-- Under an erased number nothing is found. -/
theorem get?_erase (table : NumberedTable α) (number other : Nat) :
    (table.erase number).get? other = if other = number then none else table.get? other :=
  lookup_filter_ne table.entries number other

/-- A modification concerns one number only. -/
theorem get?_modify (table : NumberedTable α) (number other : Nat) (f : α → α) :
    (table.modify number f).get? other =
      if other = number then (table.get? other).map f else table.get? other :=
  lookup_map_value table.entries number other f

/-- Inserting under one number gives no value to another. -/
theorem get?_insert_of_ne {table : NumberedTable α} (h : table.get? other = none)
    (hne : number ≠ other) : (table.insert number value).get? other = none := by
  rw [get?_insert, if_neg hne.symm, h]

/-- There is nothing to erase under a number that is not taken. -/
theorem erase_of_get?_eq_none {table : NumberedTable α} (h : table.get? number = none) :
    table.erase number = table := by
  refine congrArg NumberedTable.mk (List.filter_eq_self.mpr fun entry hentry ↦ ?_)
  exact decide_eq_true (get?_eq_none_iff.mp h entry hentry)

/-- Modifying a value keeps the order. -/
theorem Ordered.modify {table : NumberedTable α} (h : Ordered table.entries) (number : Nat)
    (f : α → α) : Ordered (table.modify number f).entries := by
  refine List.pairwise_map.mpr (h.imp fun {entry entry'} hlt ↦ ?_)
  split_ifs <;> exact hlt

/-- Ordered entries are different. -/
theorem Ordered.nodup (h : Ordered entries) : entries.Nodup :=
  List.Pairwise.imp (fun hlt heq ↦ Nat.ne_of_lt hlt (congrArg Prod.fst heq)) h

/-- A table is determined by what is found under each number. -/
theorem ext_of_ordered {table table' : NumberedTable α} (h : Ordered table.entries)
    (h' : Ordered table'.entries) (hvalues : ∀ number, table.get? number = table'.get? number) :
    table = table' := by
  have hmem : ∀ entry : Nat × α, entry ∈ table.entries ↔ entry ∈ table'.entries := by
    rintro ⟨number, value⟩
    rw [← get?_eq_some_iff h, ← get?_eq_some_iff h', hvalues]
  have hperm := (List.perm_ext_iff_of_nodup h.nodup h'.nodup).mpr hmem
  refine congrArg NumberedTable.mk (List.Perm.eq_of_pairwise ?_ h h' hperm)
  exact fun entry entry' _ _ hlt hlt' ↦ absurd hlt' (Nat.lt_asymm hlt)

/-- Inserting replaces the value, so it need not be erased before. -/
theorem insert_erase {table : NumberedTable α} (h : Ordered table.entries) (number : Nat)
    (value : α) : (table.erase number).insert number value = table.insert number value := by
  refine ext_of_ordered ((h.filter _).put number value) (h.put number value) fun other ↦ ?_
  rw [get?_insert, get?_insert, get?_erase]
  split_ifs <;> rfl

/-- To change a value is to set it. -/
theorem modify_eq_insert {table : NumberedTable α} (h : Ordered table.entries)
    (hget : table.get? number = some value) (f : α → α) :
    table.modify number f = table.insert number (f value) := by
  refine ext_of_ordered (h.modify number f) (h.put number _) fun other ↦ ?_
  rw [get?_modify, get?_insert]
  split_ifs with hother
  · rw [hother, hget, Option.map_some]
  · rfl

/-- There is nothing to modify under a number that is not taken. -/
theorem modify_of_get?_eq_none {table : NumberedTable α} (hget : table.get? number = none)
    (f : α → α) : table.modify number f = table := by
  have hsame : ∀ entry ∈ table.entries,
      (if entry.1 = number then (entry.1, f entry.2) else entry) = entry :=
    fun entry hentry ↦ if_neg (get?_eq_none_iff.mp hget entry hentry)
  exact congrArg NumberedTable.mk ((List.map_congr_left hsame).trans (List.map_id' _))

end DebugLink.NumberedTable
