import DebugLink.Breakpoint.Table
import DebugLink.Proofs.Table.Named
import DebugLink.Proofs.Table.Numbered
import Mathlib.Data.List.Induction

/-!
The breakpoint table and its index of files. Each operation changes what is stored under one number
(`get?_insert`, `get?_remove`, `get?_modify`). The index is consistent with what is stored
(`Consistent`): a file has a line and a number in the index exactly if the breakpoint of that number
is at that line of the file. Every change of a table keeps that (`Consistent.change`), so whatever
was done to a table, a question about a file is answered by the stored breakpoints
(`index_consistent`).
-/

set_option autoImplicit false

namespace DebugLink

namespace Breakpoint

/-- Whether a breakpoint is at a line of a file, which may be named either way. -/
def IsAt (b : Breakpoint) (file : String) (line : Nat) : Prop :=
  b.line = some line ∧ (b.file = some file ∨ b.fullname = some file)

/-- A breakpoint is filed under its file and under its full file name, whichever of them it has. -/
theorem mem_files_iff {b : Breakpoint} {file : String} :
    file ∈ b.files ↔ b.file = some file ∨ b.fullname = some file := by
  simp [files]

end Breakpoint

namespace BreakpointTable

/-- Lines and numbers of breakpoints by file. -/
abbrev Index : Type := NamedTable (List (Nat × Nat))

/-! ### The index -/

/-- The lines and numbers that stand under a file. -/
def places (byFile : Index) (file : String) : List (Nat × Nat) :=
  (byFile.get? file).getD []

section Index

variable {byFile : Index} {place : Nat × Nat} {number : Nat} {file other : String}

/-- To index a line adds its place to one file. -/
theorem mem_places_index {line : Nat} :
    place ∈ places (index line number byFile file) other ↔
      place ∈ places byFile other ∨ (other = file ∧ place = (line, number)) := by
  unfold places index
  rw [NamedTable.get?_insert]
  by_cases hother : other = file
  · simp [hother]
  · simp [hother]

/-- To unindex a breakpoint takes all its places out of one file. -/
theorem mem_places_unindex :
    place ∈ places (unindex number byFile file) other ↔
      place ∈ places byFile other ∧ (other = file → place.2 ≠ number) := by
  unfold places unindex
  cases hget : byFile.get? file with
  | none =>
    by_cases hother : other = file
    · simp [hother, hget]
    · simp [hother]
  | some entries =>
    dsimp only
    split_ifs with hempty
    · have hall : ∀ place ∈ entries, place.2 = number := by
        simpa using hempty
      rw [NamedTable.get?_erase]
      by_cases hother : other = file
      · simpa [hother, hget] using hall place
      · simp [hother]
    · rw [NamedTable.get?_insert]
      by_cases hother : other = file
      · simp [hother, hget]
      · simp [hother]

/-- A line is indexed under each of some files. -/
theorem mem_places_foldl_index {line : Nat} (files : List String) :
    place ∈ places (files.foldl (index line number) byFile) other ↔
      place ∈ places byFile other ∨ (other ∈ files ∧ place = (line, number)) := by
  induction files generalizing byFile with
  | nil => simp
  | cons file rest ih =>
    rw [List.foldl_cons, ih, mem_places_index, List.mem_cons, or_assoc, ← or_and_right]

/-- A breakpoint is unindexed from each of some files. -/
theorem mem_places_foldl_unindex (files : List String) :
    place ∈ places (files.foldl (unindex number) byFile) other ↔
      place ∈ places byFile other ∧ (other ∈ files → place.2 ≠ number) := by
  induction files generalizing byFile with
  | nil => simp
  | cons file rest ih =>
    rw [List.foldl_cons, ih, mem_places_unindex, List.mem_cons, and_assoc, ← or_imp]

/-- No file stands twice in the index, and none without a place. -/
structure Tidy (byFile : Index) : Prop where
  distinct : byFile.names.Nodup
  filled : ∀ file entries, byFile.get? file = some entries → entries ≠ []

theorem tidy_empty : Tidy NamedTable.empty :=
  ⟨List.nodup_nil, nofun⟩

/-- A file stored with at least one place keeps the index tidy. -/
theorem Tidy.insert (h : Tidy byFile) {entries : List (Nat × Nat)} (hfilled : entries ≠ []) :
    Tidy (byFile.insert file entries) := by
  constructor
  · exact NamedTable.nodup_names_insert h.distinct file entries
  · intro other found hfound
    rw [NamedTable.get?_insert] at hfound
    split_ifs at hfound
    · exact Option.some.inj hfound ▸ hfilled
    · exact h.filled other found hfound

theorem Tidy.erase (h : Tidy byFile) : Tidy (byFile.erase file) := by
  constructor
  · rw [NamedTable.erase, NamedTable.names_filterNames]
    exact h.distinct.filter _
  · intro other found hfound
    rw [NamedTable.get?_erase] at hfound
    split_ifs at hfound
    exact h.filled other found hfound

/-- A file that is indexed has a place. -/
theorem Tidy.index (h : Tidy byFile) (line number : Nat) (file : String) :
    Tidy (index line number byFile file) :=
  h.insert (List.append_ne_nil_of_right_ne_nil _ (List.cons_ne_nil _ _))

/-- A file without places is dropped from the index. -/
theorem Tidy.unindex (h : Tidy byFile) (number : Nat) (file : String) :
    Tidy (unindex number byFile file) := by
  unfold BreakpointTable.unindex
  split
  · exact h
  · dsimp only
    split_ifs with hempty
    · exact h.erase
    · exact h.insert fun hnil ↦ hempty (List.isEmpty_iff.mpr hnil)

/-- What keeps the index tidy for one file does so for one after another. -/
theorem Tidy.foldl {f : Index → String → Index} (h : Tidy byFile)
    (hf : ∀ byFile file, Tidy byFile → Tidy (f byFile file)) (files : List String) :
    Tidy (files.foldl f byFile) := by
  induction files generalizing byFile with
  | nil => exact h
  | cons file rest ih => exact ih (hf byFile file h)

end Index

/-- Adds the place of a breakpoint to the index, if it has one. -/
def addPlaces (b : Breakpoint) (byFile : Index) : Index :=
  match b.line with
  | some line => b.files.foldl (index line b.number) byFile
  | none => byFile

/-- The places of a breakpoint are those where it is. -/
theorem mem_places_addPlaces {b : Breakpoint} {byFile : Index} {line number : Nat} {file : String} :
    (line, number) ∈ places (addPlaces b byFile) file ↔
      (line, number) ∈ places byFile file ∨ (number = b.number ∧ b.IsAt file line) := by
  unfold addPlaces Breakpoint.IsAt
  cases hline : b.line with
  | none => simp
  | some own =>
    rw [mem_places_foldl_index, Breakpoint.mem_files_iff, Prod.mk.injEq, Option.some.injEq]
    constructor
    · rintro (hold | ⟨hfile, rfl, rfl⟩)
      · exact .inl hold
      · exact .inr ⟨rfl, rfl, hfile⟩
    · rintro (hold | ⟨rfl, rfl, hfile⟩)
      · exact .inl hold
      · exact .inr ⟨hfile, rfl, rfl⟩

theorem Tidy.addPlaces {byFile : Index} (h : Tidy byFile) (b : Breakpoint) :
    Tidy (addPlaces b byFile) := by
  unfold BreakpointTable.addPlaces
  split
  · exact h.foldl (fun _ file hfile ↦ hfile.index _ _ file) _
  · exact h

/-! ### What is stored -/

variable {table : BreakpointTable} {number : Nat} {b : Breakpoint}

/-- Only the breakpoint that is removed is gone. -/
theorem get?_remove (table : BreakpointTable) (number other : Nat) :
    (table.remove number).2.get? other = if other = number then none else table.get? other := by
  unfold remove
  cases hget : table.get? number with
  | none =>
    by_cases hother : other = number
    · rw [if_pos hother, hother, hget]
    · rw [if_neg hother]
  | some b => exact NumberedTable.get?_erase table.byNumber number other

/-- To insert a breakpoint is to remove what is there under its number and to store it anew. -/
theorem insert_snd (table : BreakpointTable) (b : Breakpoint) :
    (table.insert b).2 = ⟨(table.remove b.number).2.byNumber.insert b.number b,
      addPlaces b (table.remove b.number).2.byFile⟩ :=
  rfl

/-- Only the number of the breakpoint has a new one. -/
theorem get?_insert (table : BreakpointTable) (b : Breakpoint) (other : Nat) :
    (table.insert b).2.get? other = if other = b.number then some b else table.get? other := by
  have hinsert : (table.insert b).2.get? other =
      if other = b.number then some b else (table.remove b.number).2.get? other :=
    NumberedTable.get?_insert _ _ _ _
  rw [hinsert, get?_remove]
  by_cases hother : other = b.number
  · rw [if_pos hother, if_pos hother]
  · rw [if_neg hother, if_neg hother, if_neg hother]

/-- Only the breakpoint that is modified is another one. -/
theorem get?_modify (table : BreakpointTable) (number other : Nat) (f : Breakpoint → Breakpoint) :
    (table.modify number f).2.get? other =
      if other = number then (table.get? other).map f else table.get? other :=
  NumberedTable.get?_modify table.byNumber number other f

/-! ### Consistency -/

/-- The entries stand in order, each breakpoint under its number, and the index says of each file at
which lines of it which breakpoints are. -/
structure Consistent (table : BreakpointTable) : Prop where
  ordered : NumberedTable.Ordered table.byNumber.entries
  keyed : ∀ number b, table.get? number = some b → b.number = number
  tidy : Tidy table.byFile
  indexed : ∀ file line number, (line, number) ∈ places table.byFile file ↔
    ∃ b, table.get? number = some b ∧ b.IsAt file line

theorem consistent_empty : Consistent empty where
  ordered := List.Pairwise.nil
  keyed := nofun
  tidy := tidy_empty
  indexed file line number := by
    constructor
    · exact nofun
    · rintro ⟨b, hget, -⟩
      exact absurd hget nofun

/-- When a breakpoint is removed its places go with it. -/
theorem Consistent.remove (h : Consistent table) (number : Nat) :
    Consistent (table.remove number).2 := by
  cases hget : table.get? number with
  | none =>
    have hsame : (table.remove number).2 = table := by
      unfold BreakpointTable.remove
      rw [hget]
    rwa [hsame]
  | some b =>
    have hremove : (table.remove number).2 =
        ⟨table.byNumber.erase number,
          b.files.foldl (BreakpointTable.unindex number) table.byFile⟩ := by
      unfold BreakpointTable.remove
      rw [hget]
    constructor
    · rw [hremove]
      exact h.ordered.filter _
    · intro other found hfound
      rw [get?_remove] at hfound
      split_ifs at hfound
      exact h.keyed other found hfound
    · rw [hremove]
      exact h.tidy.foldl (fun _ file hfile ↦ hfile.unindex number file) _
    · intro file line other
      have hplaces : (line, other) ∈ places (table.remove number).2.byFile file ↔
          (∃ b, table.get? other = some b ∧ b.IsAt file line) ∧
            (file ∈ b.files → other ≠ number) := by
        rw [hremove, mem_places_foldl_unindex, h.indexed]
      rw [hplaces, get?_remove]
      by_cases hother : other = number
      · rw [if_pos hother, hother, hget]
        constructor
        · rintro ⟨⟨found, hfound, hat⟩, hfile⟩
          obtain rfl := Option.some.inj hfound
          exact absurd rfl (hfile (Breakpoint.mem_files_iff.mpr hat.2))
        · rintro ⟨found, hfound, -⟩
          exact absurd hfound nofun
      · rw [if_neg hother]
        exact and_iff_left fun _ ↦ hother

/-- When a breakpoint is inserted its places come in, and those that it had before are gone. -/
theorem Consistent.insert (h : Consistent table) (b : Breakpoint) :
    Consistent (table.insert b).2 := by
  have hremoved := h.remove b.number
  constructor
  · exact hremoved.ordered.put b.number b
  · intro other found hfound
    rw [get?_insert] at hfound
    split_ifs at hfound with hother
    · exact Option.some.inj hfound ▸ hother.symm
    · exact h.keyed other found hfound
  · exact hremoved.tidy.addPlaces b
  · intro file line other
    rw [insert_snd, mem_places_addPlaces, hremoved.indexed, ← insert_snd, get?_insert, get?_remove]
    by_cases hother : other = b.number
    · simp [hother]
    · simp [hother]

/-- A change that leaves the number and the place of each breakpoint alone. -/
theorem Consistent.modify (h : Consistent table) (number : Nat) {f : Breakpoint → Breakpoint}
    (hnumber : ∀ b, (f b).number = b.number)
    (hat : ∀ b file line, (f b).IsAt file line ↔ b.IsAt file line) :
    Consistent (table.modify number f).2 := by
  constructor
  · exact h.ordered.modify number f
  · intro other found hfound
    rw [get?_modify] at hfound
    split_ifs at hfound
    · obtain ⟨b, hget, rfl⟩ := Option.map_eq_some_iff.mp hfound
      rw [hnumber]
      exact h.keyed other b hget
    · exact h.keyed other found hfound
  · exact h.tidy
  · intro file line other
    have hplaces : places (table.modify number f).2.byFile file = places table.byFile file := rfl
    rw [hplaces, h.indexed, get?_modify]
    split_ifs
    · simp [hat]
    · rfl

/-! ### What is stored, without the index -/

/-- The breakpoints after some were stored one after another. -/
def storeAll (known : NumberedTable Breakpoint) (stored : List Breakpoint) :
    NumberedTable Breakpoint :=
  stored.foldl (fun known b ↦ known.insert b.number b) known

/-- Breakpoints may be stored in two goes. -/
theorem storeAll_append (known : NumberedTable Breakpoint) (stored later : List Breakpoint) :
    storeAll known (stored ++ later) = storeAll (storeAll known stored) later :=
  List.foldl_append

/-- To remove a breakpoint erases its number, whether it is known or not. -/
theorem byNumber_remove (table : BreakpointTable) (number : Nat) :
    (table.remove number).2.byNumber = table.byNumber.erase number := by
  unfold remove
  cases hget : table.get? number with
  | none => exact (NumberedTable.erase_of_get?_eq_none hget).symm
  | some b => rfl

/-- To insert a breakpoint stores it under its number. -/
theorem Consistent.byNumber_insert (h : Consistent table) (b : Breakpoint) :
    (table.insert b).2.byNumber = table.byNumber.insert b.number b := by
  rw [insert_snd, byNumber_remove]
  exact NumberedTable.insert_erase h.ordered b.number b

/-- After a change that leaves numbers and places alone the breakpoint is stored anew, if it is
known. -/
theorem Consistent.byNumber_modify (h : Consistent table) (number : Nat)
    {f : Breakpoint → Breakpoint} (hnumber : ∀ b, (f b).number = b.number) :
    (table.modify number f).2.byNumber =
      storeAll table.byNumber ((table.modify number f).2.get? number).toList := by
  rw [get?_modify, if_pos rfl]
  cases hget : table.get? number with
  | none => exact NumberedTable.modify_of_get?_eq_none hget f
  | some b =>
    have hkey : (f b).number = number := (hnumber b).trans (h.keyed number b hget)
    exact (NumberedTable.modify_eq_insert h.ordered hget f).trans (by rw [← hkey]; rfl)

/-! ### Changes one after another -/

/-- A change of a table. -/
inductive Change
  | insert (b : Breakpoint)
  | remove (number : Nat)
  | setEnabled (number : Nat) (enabled : Bool)
  | setCondition (number : Nat) (condition : Option String)

namespace Change

/-- The table after a change. -/
def apply (table : BreakpointTable) : Change → BreakpointTable
  | insert b => (table.insert b).2
  | remove number => (table.remove number).2
  | setEnabled number enabled => (table.setEnabled number enabled).2
  | setCondition number condition => (table.setCondition number condition).2

/-- What a change does to what is stored under each number, if there were no index. -/
def store (stored : Nat → Option Breakpoint) : Change → Nat → Option Breakpoint
  | insert b => Function.update stored b.number (some b)
  | remove number => Function.update stored number none
  | setEnabled number enabled =>
    Function.update stored number ((stored number).map fun b ↦ { b with enabled })
  | setCondition number condition =>
    Function.update stored number ((stored number).map fun b ↦ { b with condition })

end Change

/-- The table after changes one after another. -/
def after (changes : List Change) : BreakpointTable :=
  changes.foldl Change.apply empty

/-- What is stored under each number after changes one after another. -/
def stored (changes : List Change) : Nat → Option Breakpoint :=
  changes.foldl Change.store fun _ ↦ none

/-- Every change keeps the index consistent. -/
theorem Consistent.change (h : Consistent table) (change : Change) :
    Consistent (change.apply table) := by
  cases change with
  | insert b => exact h.insert b
  | remove number => exact h.remove number
  | setEnabled number enabled => exact h.modify number (fun _ ↦ rfl) fun _ _ _ ↦ Iff.rfl
  | setCondition number condition => exact h.modify number (fun _ ↦ rfl) fun _ _ _ ↦ Iff.rfl

/-- A change of the table is the change of what is stored. -/
theorem get?_apply (table : BreakpointTable) (change : Change) :
    (change.apply table).get? = change.store table.get? := by
  ext1 other
  cases change with
  | insert b => exact (get?_insert table b other).trans (Function.update_apply _ _ _ _).symm
  | remove number =>
    exact (get?_remove table number other).trans (Function.update_apply _ _ _ _).symm
  | setEnabled number enabled =>
    refine (get?_modify table number other _).trans ?_
    rw [Change.store, Function.update_apply]
    split_ifs with hother
    · rw [hother]
    · rfl
  | setCondition number condition =>
    refine (get?_modify table number other _).trans ?_
    rw [Change.store, Function.update_apply]
    split_ifs with hother
    · rw [hother]
    · rfl

/-- The index is consistent after all changes. -/
theorem consistent_after (changes : List Change) : Consistent (after changes) := by
  induction changes using List.reverseRecOn with
  | nil => exact consistent_empty
  | append_singleton changes change ih =>
    rw [after, List.foldl_append]
    exact ih.change change

/-- What is found in the table is what the changes have stored. -/
theorem get?_after (changes : List Change) : (after changes).get? = stored changes := by
  induction changes using List.reverseRecOn with
  | nil => rfl
  | append_singleton changes change ih =>
    rw [after, stored, List.foldl_append, List.foldl_append, ← stored, ← ih]
    exact get?_apply (after changes) change

/-! ### Questions -/

/-- In a consistent table a line has a breakpoint exactly if one of those stored is there. -/
theorem isBreakpoint_iff (h : Consistent table) {file : String} {line : Nat} :
    table.isBreakpoint file line ↔ ∃ number b, table.get? number = some b ∧ b.IsAt file line := by
  have hany : table.isBreakpoint file line ↔
      ∃ number, (line, number) ∈ places table.byFile file := by
    simp [isBreakpoint, places]
  rw [hany]
  exact exists_congr fun number ↦ h.indexed file line number

/-- A breakpoint is listed under its number. -/
theorem mem_toList_iff (h : Consistent table) :
    b ∈ table.toList ∧ b.number = number ↔ table.get? number = some b := by
  rw [toList, NumberedTable.values, List.mem_map]
  constructor
  · rintro ⟨⟨⟨key, value⟩, hentry, rfl⟩, hnumber⟩
    have hget := (NumberedTable.get?_eq_some_iff h.ordered).mpr hentry
    obtain rfl : value.number = key := h.keyed key value hget
    exact hnumber ▸ hget
  · intro hget
    exact ⟨⟨_, (NumberedTable.get?_eq_some_iff h.ordered).mp hget, rfl⟩, h.keyed number b hget⟩

/-- The breakpoints are listed in the order of their numbers. -/
theorem numbers_toList (h : Consistent table) :
    table.toList.map Breakpoint.number = table.byNumber.numbers := by
  rw [toList, NumberedTable.values, NumberedTable.numbers, List.map_map]
  refine List.map_congr_left fun entry hentry ↦ ?_
  exact h.keyed entry.1 entry.2 ((NumberedTable.get?_eq_some_iff h.ordered).mpr hentry)

/-! ### Lines -/

/-- In numbers that do not decrease, each one is kept once. What was kept before stands in front. -/
theorem eraseRepsBy_loop_of_sorted (rest : List Nat) (first : Nat) (before : List Nat)
    (hsorted : (first :: rest).Pairwise (· ≤ ·)) : ∃ kept,
      List.eraseRepsBy.loop (· == ·) first rest before = before.reverse ++ kept ∧
        kept.Pairwise (· < ·) ∧ ∀ line, line ∈ kept ↔ line ∈ first :: rest := by
  induction rest generalizing first before with
  | nil =>
    refine ⟨[first], ?_, List.pairwise_singleton _ _, fun _ ↦ Iff.rfl⟩
    rw [List.eraseRepsBy.loop, List.reverse_cons]
  | cons second rest ih =>
    obtain ⟨hfirst, hrest⟩ := List.pairwise_cons.mp hsorted
    by_cases heq : first = second
    · subst heq
      obtain ⟨kept, hkept, hincreasing, hmem⟩ := ih first before hrest
      refine ⟨kept, ?_, hincreasing, fun line ↦ by simp [hmem]⟩
      rw [List.eraseRepsBy.loop, beq_self_eq_true]
      exact hkept
    · obtain ⟨kept, hkept, hincreasing, hmem⟩ := ih second (first :: before) hrest
      have hlt : first < second := Nat.lt_of_le_of_ne (hfirst second List.mem_cons_self) heq
      have hall : ∀ line ∈ kept, first < line := by
        intro line hline
        rcases List.mem_cons.mp ((hmem line).mp hline) with rfl | hlater
        · exact hlt
        · exact Nat.lt_of_lt_of_le hlt ((List.pairwise_cons.mp hrest).1 line hlater)
      refine ⟨first :: kept, ?_, List.pairwise_cons.mpr ⟨hall, hincreasing⟩, fun line ↦ ?_⟩
      · rw [List.eraseRepsBy.loop, beq_false_of_ne heq]
        dsimp only
        rw [hkept, List.reverse_cons, List.append_assoc, List.singleton_append]
      · rw [List.mem_cons, hmem, List.mem_cons (l := second :: rest)]

/-- What is left of sorted lines without repetitions increases strictly, and no line is lost. -/
theorem eraseReps_of_sorted {lines : List Nat} (h : lines.Pairwise (· ≤ ·)) :
    lines.eraseReps.Pairwise (· < ·) ∧ ∀ line, line ∈ lines.eraseReps ↔ line ∈ lines := by
  cases lines with
  | nil => exact ⟨.nil, fun _ ↦ Iff.rfl⟩
  | cons first rest =>
    obtain ⟨kept, hkept, hincreasing, hmem⟩ := eraseRepsBy_loop_of_sorted rest first [] h
    have hreps : (first :: rest).eraseReps = kept := hkept
    rw [hreps]
    exact ⟨hincreasing, hmem⟩

/-- The lines of a file increase, and are those with a breakpoint. -/
theorem linesIn_increasing (table : BreakpointTable) (file : String) :
    (table.linesIn file).Pairwise (· < ·) ∧
      ∀ line, line ∈ table.linesIn file ↔ table.isBreakpoint file line := by
  have hsorted : ((((table.byFile.get? file).getD []).map Prod.fst).mergeSort (· ≤ ·)).Pairwise
      (· ≤ ·) := by
    refine (List.pairwise_mergeSort (fun a b c hab hbc ↦ ?_) (fun a b ↦ ?_) _).imp fun hle ↦ ?_
    · simp only [decide_eq_true_eq] at hab hbc ⊢
      exact Nat.le_trans hab hbc
    · simpa using Nat.le_total a b
    · simpa using hle
  obtain ⟨hincreasing, hmem⟩ := eraseReps_of_sorted hsorted
  refine ⟨hincreasing, fun line ↦ ?_⟩
  rw [linesIn, hmem, List.mem_mergeSort]
  simp [isBreakpoint]

/-! ### The index of a table -/

/-- Whatever was done to a table, its index answers like the breakpoints that are stored. A line of
a file has a breakpoint exactly if a stored one is there, the lines of a file are listed once each
in increasing order, every file in the index has a place, every place belongs to a stored
breakpoint, and the breakpoints are listed once each in the order of their numbers. -/
theorem index_consistent (changes : List Change) :
    (∀ file line, (after changes).isBreakpoint file line ↔
      ∃ number b, stored changes number = some b ∧ b.IsAt file line) ∧
    (∀ file, ((after changes).linesIn file).Pairwise (· < ·) ∧
      ∀ line, line ∈ (after changes).linesIn file ↔
        ∃ number b, stored changes number = some b ∧ b.IsAt file line) ∧
    (∀ entry ∈ (after changes).byFile.entries,
      entry.2 ≠ [] ∧ ∀ place ∈ entry.2, (stored changes place.2).isSome) ∧
    ((after changes).toList.map Breakpoint.number).Pairwise (· < ·) ∧
    ∀ number b, b ∈ (after changes).toList ∧ b.number = number ↔
      stored changes number = some b := by
  have h := consistent_after changes
  rw [← get?_after]
  refine ⟨fun file line ↦ isBreakpoint_iff h, fun file ↦ ?_, fun entry hentry ↦ ?_, ?_,
    fun number b ↦ mem_toList_iff h⟩
  · obtain ⟨hincreasing, hmem⟩ := linesIn_increasing (after changes) file
    exact ⟨hincreasing, fun line ↦ (hmem line).trans (isBreakpoint_iff h)⟩
  · have hget := NamedTable.get?_of_mem_entries h.tidy.distinct hentry
    refine ⟨h.tidy.filled entry.1 entry.2 hget, fun place hplace ↦ ?_⟩
    have hmem : (place.1, place.2) ∈ places (after changes).byFile entry.1 := by
      rw [places, hget]
      exact hplace
    obtain ⟨b, hstored, -⟩ := (h.indexed entry.1 place.1 place.2).mp hmem
    exact Option.isSome_iff_exists.mpr ⟨b, hstored⟩
  · rw [numbers_toList h]
    exact List.pairwise_map.mpr h.ordered

/-- A breakpoint in a file with one name is reported at line 3, and later at line 9. -/
def moving : List Change :=
  let b : Breakpoint := ⟨1, some "a.c", some "a.c", some 3, none, none, none, true, false, false, 0⟩
  [.insert b, .setEnabled 1 false, .insert { b with line := some 9 }]

/-- A breakpoint that moves takes its line with it. -/
theorem index_consistent_of_moving :
    (after moving).isBreakpoint "a.c" 9 ∧ 9 ∈ (after moving).linesIn "a.c" ∧
      3 ∉ (after moving).linesIn "a.c" ∧ (stored moving 1).isSome := by
  obtain ⟨hanswers, hlines, hindexed, -⟩ := index_consistent moving
  have hnine : (after moving).isBreakpoint "a.c" 9 :=
    (hanswers "a.c" 9).mpr ⟨1, _, rfl, rfl, .inl rfl⟩
  have hthree : ¬(after moving).isBreakpoint "a.c" 3 := by decide
  refine ⟨hnine, ((hlines "a.c").2 9).mpr ((hanswers "a.c" 9).mp hnine), fun hmem ↦ ?_, ?_⟩
  · exact hthree ((hanswers "a.c" 3).mpr (((hlines "a.c").2 3).mp hmem))
  · exact (hindexed ("a.c", [(9, 1), (9, 1)]) (by decide)).2 (9, 1) (by decide)

end BreakpointTable

end DebugLink
