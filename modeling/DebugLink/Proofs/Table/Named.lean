import DebugLink.Proofs.Table.Lookup
import DebugLink.Table.Named
import Mathlib.Data.List.Dedup
import Mathlib.Data.List.Induction

/-!
The laws of tables keyed by name. An insertion is described by what it does to the names in their
order (`names_insert`) and to the look-up of each name (`get?_insert`); a table whose names are
distinct is determined by these two (`ext_of_nodup`).

`Collapses` says what becomes of pairs with repeated names without mentioning insertion: each name
stands where it stood first, with the value that it had last. `collapses_iff` says that inserting
the pairs one after the other gives this table and no other.
-/

set_option autoImplicit false

namespace DebugLink.NamedTable

open Entries

variable {α : Type}

/-! ### Insertion -/

/-- A new name goes to the end, a known one stays where it is. -/
theorem map_fst_put (name : String) (value : α) (entries : List (String × α)) :
    (put name value entries).map Prod.fst =
      if name ∈ entries.map Prod.fst then entries.map Prod.fst
      else entries.map Prod.fst ++ [name] := by
  induction entries with
  | nil => simp [put]
  | cons entry rest ih =>
    by_cases hname : entry.1 = name
    · simp [put, hname]
    · have hne : name ≠ entry.1 := fun h ↦ hname h.symm
      simp only [put, hname, ↓reduceIte, List.map_cons, ih, List.mem_cons, hne, false_or]
      split_ifs <;> rfl

/-- An entry under a new name is added at the end. -/
theorem put_of_notMem {name : String} {value : α} {entries : List (String × α)}
    (h : name ∉ entries.map Prod.fst) : put name value entries = entries ++ [(name, value)] := by
  induction entries with
  | nil => rfl
  | cons entry rest ih =>
    simp only [List.map_cons, List.mem_cons, not_or] at h
    rw [put, if_neg (fun heq ↦ h.1 heq.symm), ih h.2]
    rfl

/-- Under its name the new value is found, under others what was found before. -/
theorem lookup_put (name other : String) (value : α) (entries : List (String × α)) :
    (put name value entries).lookup other =
      if other = name then some value else entries.lookup other := by
  induction entries with
  | nil => rw [put, lookup_entry_cons]
  | cons entry rest ih =>
    by_cases hname : entry.1 = name
    · rw [put, if_pos hname, lookup_entry_cons, lookup_entry_cons, hname]
      by_cases hother : other = name
      · rw [if_pos hother, if_pos hother]
      · rw [if_neg hother, if_neg hother, if_neg hother]
    · rw [put, if_neg hname, lookup_entry_cons, lookup_entry_cons, ih]
      by_cases hentry : other = entry.1
      · have hother : other ≠ name := fun h ↦ hname (hentry.symm.trans h)
        rw [if_pos hentry, if_neg hother, if_pos hentry]
      · rw [if_neg hentry, if_neg hentry]

/-- A new name goes to the end, a known one stays where it is. -/
theorem names_insert (table : NamedTable α) (name : String) (value : α) :
    (table.insert name value).names =
      if name ∈ table.names then table.names else table.names ++ [name] :=
  map_fst_put name value table.entries

/-- Under its name the new value is found, under others what was found before. -/
theorem get?_insert (table : NamedTable α) (name other : String) (value : α) :
    (table.insert name value).get? other = if other = name then some value else table.get? other :=
  lookup_put name other value table.entries

/-- Inserting keeps names distinct. -/
theorem nodup_names_insert {table : NamedTable α} (h : table.names.Nodup) (name : String)
    (value : α) : (table.insert name value).names.Nodup := by
  rw [names_insert]
  split_ifs with hname
  · exact h
  · rw [List.nodup_append]
    refine ⟨h, List.nodup_singleton name, ?_⟩
    intro a ha b hb hab
    rw [List.mem_singleton] at hb
    exact hname (hb ▸ hab ▸ ha)

/-- An entry is the new one or was there before. -/
theorem mem_put {name : String} {value : α} {entry : String × α} {entries : List (String × α)}
    (h : entry ∈ put name value entries) : entry = (name, value) ∨ entry ∈ entries := by
  induction entries with
  | nil => exact .inl (List.mem_singleton.mp h)
  | cons first rest ih =>
    rw [put] at h
    split_ifs at h
    · exact (List.mem_cons.mp h).imp_right (List.mem_cons_of_mem _)
    · rcases List.mem_cons.mp h with rfl | hrest
      · exact .inr List.mem_cons_self
      · exact (ih hrest).imp_right (List.mem_cons_of_mem _)

/-- An entry under a new name is added at the end. -/
theorem insert_of_notMem {table : NamedTable α} {name : String} (h : name ∉ table.names)
    (value : α) : table.insert name value = ⟨table.entries ++ [(name, value)]⟩ :=
  congrArg NamedTable.mk (put_of_notMem h)

/-- Inserting under a name that is not among the first entries concerns only the others. -/
theorem put_append {name : String} {value : α} {earlier : List (String × α)}
    (h : name ∉ earlier.map Prod.fst) (later : List (String × α)) :
    put name value (earlier ++ later) = earlier ++ put name value later := by
  induction earlier with
  | nil => rfl
  | cons entry rest ih =>
    rw [List.map_cons, List.mem_cons, not_or] at h
    rw [List.cons_append, put, if_neg fun heq ↦ h.1 heq.symm, ih h.2, List.cons_append]

/-! ### Other changes -/

/-- Modifying a value keeps the names. -/
@[simp]
theorem names_modify (table : NamedTable α) (name : String) (f : α → α) :
    (table.modify name f).names = table.names := by
  unfold names modify
  rw [List.map_map]
  refine List.map_congr_left fun entry _ ↦ ?_
  rw [Function.comp_apply]
  split <;> rfl

/-- A filter by name keeps the names that it lets pass. -/
@[simp]
theorem names_filterNames (table : NamedTable α) (keep : String → Bool) :
    (table.filterNames keep).names = table.names.filter keep := by
  unfold names filterNames
  rw [List.filter_map]
  rfl

/-- What is found under a name is an entry. -/
theorem mem_entries_of_get? {table : NamedTable α} {name : String} {value : α}
    (h : table.get? name = some value) : (name, value) ∈ table.entries :=
  mem_of_lookup h

/-- With distinct names every entry is found under its name. -/
theorem get?_of_mem_entries {table : NamedTable α} {entry : String × α} (h : table.names.Nodup)
    (hentry : entry ∈ table.entries) : table.get? entry.1 = some entry.2 :=
  lookup_of_mem h hentry

/-- A filter by name leaves nothing under names that it does not let pass. -/
theorem get?_filterNames (table : NamedTable α) (keep : String → Bool) (name : String) :
    (table.filterNames keep).get? name = if keep name then table.get? name else none :=
  lookup_filter_key table.entries keep name

/-- A modification concerns one name only. -/
theorem get?_modify (table : NamedTable α) (name other : String) (f : α → α) :
    (table.modify name f).get? other =
      if other = name then (table.get? other).map f else table.get? other :=
  lookup_map_value table.entries name other f

/-- Under an erased name nothing is found. -/
theorem get?_erase (table : NamedTable α) (name other : String) :
    (table.erase name).get? other = if other = name then none else table.get? other :=
  lookup_filter_ne table.entries name other

/-- Something is found under the names of a table, and under no others. -/
theorem isSome_get?_iff {table : NamedTable α} {name : String} :
    (table.get? name).isSome ↔ name ∈ table.names := by
  unfold get? names
  rw [List.lookup_isSome_iff, List.mem_map]
  constructor
  · rintro ⟨entry, hentry, heq⟩
    exact ⟨entry, hentry, (beq_iff_eq.mp heq).symm⟩
  · rintro ⟨entry, hentry, rfl⟩
    exact ⟨entry, hentry, beq_self_eq_true _⟩

/-! ### Extensionality -/

/-- Entries with distinct names are determined by their names in order and what is found under each.
-/
theorem entries_ext {entries entries' : List (String × α)}
    (hdistinct : (entries.map Prod.fst).Nodup)
    (hnames : entries.map Prod.fst = entries'.map Prod.fst)
    (hvalues : ∀ name, entries.lookup name = entries'.lookup name) : entries = entries' := by
  induction entries generalizing entries' with
  | nil => exact (List.map_eq_nil_iff.mp hnames.symm).symm
  | cons entry rest ih =>
    cases entries' with
    | nil => simp at hnames
    | cons entry' rest' =>
      simp only [List.map_cons, List.cons.injEq] at hnames
      obtain ⟨hname, hrest⟩ := hnames
      rw [List.map_cons, List.nodup_cons] at hdistinct
      have hvalue := hvalues entry.1
      have hentry : entry = entry' := by
        refine Prod.ext hname ?_
        rw [lookup_entry_cons, lookup_entry_cons, if_pos rfl, if_pos hname] at hvalue
        exact Option.some.inj hvalue
      -- A name of the first entry has no second entry on either side.
      refine congrArg₂ List.cons hentry (ih hdistinct.2 hrest fun name ↦ ?_)
      by_cases hother : name = entry.1
      · have hnone : ∀ {l : List (String × α)}, entry.1 ∉ l.map Prod.fst →
            l.lookup name = none := by
          intro l hmem
          rw [List.lookup_eq_none_iff]
          intro pair hpair
          have hne : name ≠ pair.1 := by
            intro heq
            exact hmem (List.mem_map.mpr ⟨pair, hpair, (heq ▸ hother : pair.1 = entry.1)⟩)
          simp [hne]
        rw [hnone hdistinct.1, hnone (hrest ▸ hdistinct.1)]
      · have hsame := hvalues name
        have hother' : name ≠ entry'.1 := hname ▸ hother
        rwa [lookup_entry_cons, lookup_entry_cons, if_neg hother, if_neg hother'] at hsame

/-- A table in which no name stands twice is determined by its names in their order and the value
of each. -/
theorem ext_of_nodup {table table' : NamedTable α} (hdistinct : table.names.Nodup)
    (hnames : table.names = table'.names) (hvalues : ∀ name, table.get? name = table'.get? name) :
    table = table' := by
  obtain ⟨entries⟩ := table
  obtain ⟨entries'⟩ := table'
  exact congrArg NamedTable.mk (entries_ext hdistinct hnames hvalues)

/-! ### Tables of pairs -/

/-- What becomes of pairs in which names are repeated: each name stands where it stood first, with
the value that it had last. -/
structure Collapses (pairs : List (String × α)) (table : NamedTable α) : Prop where
  names_eq : table.names = (pairs.map Prod.fst).eraseDups
  get?_eq : ∀ name, table.get? name = pairs.reverse.lookup name

/-- The last pair is inserted last. -/
theorem ofList_append_singleton (pairs : List (String × α)) (pair : String × α) :
    ofList (pairs ++ [pair]) = (ofList pairs).insert pair.1 pair.2 := by
  rw [ofList, List.foldl_append]
  rfl

/-- A table made of pairs has distinct names. -/
theorem nodup_names_ofList (pairs : List (String × α)) : (ofList pairs).names.Nodup := by
  induction pairs using List.reverseRecOn with
  | nil => exact List.nodup_nil
  | append_singleton pairs pair ih =>
    rw [ofList_append_singleton]
    exact nodup_names_insert ih pair.1 pair.2

/-- A table made of pairs is what the pairs collapse to. -/
theorem collapses_ofList (pairs : List (String × α)) : Collapses pairs (ofList pairs) := by
  induction pairs using List.reverseRecOn with
  | nil => exact ⟨rfl, fun _ ↦ rfl⟩
  | append_singleton pairs pair ih =>
    rw [ofList_append_singleton]
    constructor
    · rw [names_insert, ih.names_eq, List.map_append, List.eraseDups_append]
      by_cases hname : pair.1 ∈ pairs.map Prod.fst
      · rw [if_pos (List.mem_eraseDups.mpr hname)]
        simp [List.removeAll, hname]
      · rw [if_neg (fun h ↦ hname (List.mem_eraseDups.mp h))]
        simp [List.removeAll, hname, List.eraseDups_cons]
    · intro name
      rw [get?_insert, ih.get?_eq, List.reverse_append]
      exact (lookup_entry_cons pair pairs.reverse name).symm

/-- Inserting pairs one after the other gives the table to which they collapse. -/
theorem collapses_iff {pairs : List (String × α)} {table : NamedTable α} :
    Collapses pairs table ↔ table = ofList pairs := by
  constructor
  · intro h
    have hof := collapses_ofList pairs
    refine (ext_of_nodup (nodup_names_ofList pairs) (hof.names_eq.trans h.names_eq.symm) ?_).symm
    exact fun name ↦ (hof.get?_eq name).trans (h.get?_eq name).symm
  · rintro rfl
    exact collapses_ofList pairs

/-- Pairs with distinct names are the entries of the table that they collapse to. -/
theorem entries_ofList {pairs : List (String × α)} (h : (pairs.map Prod.fst).Nodup) :
    (ofList pairs).entries = pairs := by
  induction pairs using List.reverseRecOn with
  | nil => rfl
  | append_singleton pairs pair ih =>
    rw [List.map_append, List.nodup_append] at h
    obtain ⟨hpairs, -, hdisjoint⟩ := h
    have hnew : pair.1 ∉ pairs.map Prod.fst := by
      intro hmem
      exact hdisjoint _ hmem pair.1 (by simp) rfl
    rw [ofList_append_singleton]
    show put pair.1 pair.2 (ofList pairs).entries = pairs ++ [pair]
    rw [ih hpairs, put_of_notMem hnew]

/-- A table with distinct names is what its own entries collapse to. -/
theorem collapses_entries {table : NamedTable α} (h : table.names.Nodup) :
    Collapses table.entries table :=
  collapses_iff.mpr (congrArg NamedTable.mk (entries_ofList h).symm)

end DebugLink.NamedTable
