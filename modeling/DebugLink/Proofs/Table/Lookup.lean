import Mathlib.Data.List.Nodup

/-!
Look-up in a list of pairs. Every table of the library is such a list, keyed by name, by number or
by token.
-/

set_option autoImplicit false

namespace DebugLink.Entries

variable {κ α : Type} [BEq κ] [LawfulBEq κ]

section Decidable

variable [DecidableEq κ]

theorem lookup_entry_cons (entry : κ × α) (rest : List (κ × α)) (key : κ) :
    (entry :: rest).lookup key = if key = entry.1 then some entry.2 else rest.lookup key := by
  rw [List.lookup_cons]
  by_cases hkey : key = entry.1
  · rw [if_pos hkey, beq_iff_eq.mpr hkey]
  · rw [if_neg hkey, beq_false_of_ne hkey]

/-- Keeping some keys hides the others and nothing else. -/
theorem lookup_filter_key (entries : List (κ × α)) (keep : κ → Bool) (key : κ) :
    (entries.filter fun entry ↦ keep entry.1).lookup key =
      if keep key then entries.lookup key else none := by
  induction entries with
  | nil => simp
  | cons entry rest ih =>
    by_cases hkeep : keep entry.1 = true
    · rw [List.filter_cons_of_pos (by simpa using hkeep), lookup_entry_cons, lookup_entry_cons, ih]
      by_cases hkey : key = entry.1
      · rw [if_pos hkey, if_pos hkey, hkey, if_pos hkeep]
      · rw [if_neg hkey, if_neg hkey]
    · rw [List.filter_cons_of_neg (by simpa using hkeep), lookup_entry_cons, ih]
      by_cases hkey : key = entry.1
      · rw [hkey, if_neg hkeep, if_neg hkeep]
      · rw [if_neg hkey]

/-- Removing a key hides it and nothing else. -/
theorem lookup_filter_ne (entries : List (κ × α)) (key other : κ) :
    (entries.filter fun entry ↦ entry.1 ≠ key).lookup other =
      if other = key then none else entries.lookup other := by
  rw [lookup_filter_key entries (fun other ↦ decide (other ≠ key)) other]
  by_cases hother : other = key
  · rw [if_pos hother, if_neg (by simpa using hother)]
  · rw [if_neg hother, if_pos (by simpa using hother)]

/-- Changing the value of a key changes what is found under it and nothing else. -/
theorem lookup_map_value (entries : List (κ × α)) (key other : κ) (f : α → α) :
    (entries.map fun entry ↦ if entry.1 = key then (entry.1, f entry.2) else entry).lookup other =
      if other = key then (entries.lookup other).map f else entries.lookup other := by
  induction entries with
  | nil => simp
  | cons entry rest ih =>
    rw [List.map_cons, lookup_entry_cons, lookup_entry_cons, ih]
    by_cases hentry : entry.1 = key
    · rw [if_pos hentry]
      by_cases hother : other = key
      · rw [if_pos (hother.trans hentry.symm), if_pos (hother.trans hentry.symm), if_pos hother,
          Option.map_some]
      · have hne : other ≠ entry.1 := fun h ↦ hother (h.trans hentry)
        rw [if_neg hne, if_neg hne, if_neg hother]
    · rw [if_neg hentry]
      by_cases hother : other = key
      · have hne : other ≠ entry.1 := fun h ↦ hentry (h.symm.trans hother)
        rw [if_neg hne, if_neg hne]
      · rw [if_neg hother, if_neg hother]

/-- Changing keys so that only one comes to be a certain key has the value of that one found. -/
theorem lookup_map_key {entries : List (κ × α)} {move : κ → κ} {key : κ} (old : κ)
    (h : ∀ entry ∈ entries, move entry.1 = key ↔ entry.1 = old) :
    (entries.map fun entry ↦ (move entry.1, entry.2)).lookup key = entries.lookup old := by
  induction entries with
  | nil => rfl
  | cons entry rest ih =>
    obtain ⟨hentry, hrest⟩ := List.forall_mem_cons.mp h
    rw [List.map_cons, lookup_entry_cons, lookup_entry_cons, ih hrest]
    exact if_congr (eq_comm.trans (hentry.trans eq_comm)) rfl rfl

end Decidable

theorem mem_of_lookup {entries : List (κ × α)} {key : κ} {value : α}
    (h : entries.lookup key = some value) : (key, value) ∈ entries := by
  obtain ⟨earlier, later, hsplit, -⟩ := List.lookup_eq_some_iff.mp h
  rw [hsplit]
  exact List.mem_append_right _ List.mem_cons_self

/-- If no key stands twice, what stands under a key is what is found. -/
theorem lookup_of_mem {entries : List (κ × α)} {entry : κ × α}
    (h : (entries.map Prod.fst).Nodup) (hentry : entry ∈ entries) :
    entries.lookup entry.1 = some entry.2 := by
  obtain ⟨earlier, later, rfl⟩ := List.append_of_mem hentry
  rw [List.map_append, List.map_cons, List.nodup_middle, List.nodup_cons, ← List.map_append] at h
  refine List.lookup_eq_some_iff.mpr ⟨earlier, later, rfl, fun other hother ↦ ?_⟩
  refine bne_iff_ne.mpr fun heq ↦ h.1 (List.mem_map.mpr ⟨other, ?_, heq.symm⟩)
  exact List.mem_append_left _ hother

end DebugLink.Entries
