import DebugLink.Config.Layers
import Mathlib.Data.List.TakeWhile
import Mathlib.Tactic.SplitIfs

/-!
What content is. A text is split into what stands between its line ends (`mem_splitAt_iff`), and it
has content if some line begins, behind blanks, with something else than the mark of a comment
(`hasContent_iff`).
-/

set_option autoImplicit false

namespace DebugLink

namespace Text

variable {separator : Char} {cs line before after : List Char}

/-! ### Pieces of a text -/

theorem splitAt_ne_nil (separator : Char) (cs : List Char) : splitAt separator cs ≠ [] := by
  cases cs with
  | nil => exact nofun
  | cons c rest =>
    rw [splitAt]
    split_ifs
    · exact nofun
    · cases splitAt separator rest <;> exact nofun

/-- A text without separators is one piece. -/
theorem splitAt_of_notMem (h : separator ∉ line) : splitAt separator line = [line] := by
  induction line with
  | nil => rfl
  | cons c rest ih =>
    obtain ⟨hc, hrest⟩ := not_or.mp (mt List.mem_cons.mpr h)
    rw [splitAt, if_neg (Ne.symm hc), ih hrest]

/-- The pieces before a separator and those behind it are the pieces of the whole. -/
theorem splitAt_append_cons (separator : Char) (before after : List Char) :
    splitAt separator (before ++ separator :: after) =
      splitAt separator before ++ splitAt separator after := by
  induction before with
  | nil => simp [splitAt]
  | cons c rest ih =>
    rw [List.cons_append, splitAt, splitAt, ih]
    obtain ⟨piece, pieces, hpieces⟩ := List.exists_cons_of_ne_nil (splitAt_ne_nil separator rest)
    rw [hpieces]
    split_ifs <;> rfl

/-- A piece may begin here: nothing stands before, or a separator. -/
def Begins (separator : Char) (before : List Char) : Prop :=
  before = [] ∨ ∃ init, before = init ++ [separator]

/-- A piece may end here: nothing follows, or a separator. -/
def Ends (separator : Char) (after : List Char) : Prop :=
  after = [] ∨ ∃ rest, after = separator :: rest

theorem exists_of_mem_splitAt (h : line ∈ splitAt separator cs) : separator ∉ line ∧
    ∃ before after, cs = before ++ (line ++ after) ∧ Begins separator before ∧
      Ends separator after := by
  induction hlength : cs.length using Nat.strongRecOn generalizing cs with
  | ind length ih =>
    by_cases hmem : separator ∈ cs
    · obtain ⟨first, rest, rfl, hfirst⟩ := List.eq_append_cons_of_mem hmem
      rw [splitAt_append_cons, splitAt_of_notMem hfirst, List.singleton_append,
        List.mem_cons] at h
      rcases h with rfl | hrest
      · exact ⟨hfirst, [], separator :: rest, rfl, .inl rfl, .inr ⟨rest, rfl⟩⟩
      · have hshorter : rest.length < length := by
          rw [← hlength, List.length_append, List.length_cons]
          omega
        obtain ⟨hline, before, after, rfl, hbefore, hafter⟩ := ih rest.length hshorter hrest rfl
        refine ⟨hline, first ++ separator :: before, after, by simp, .inr ?_, hafter⟩
        rcases hbefore with rfl | ⟨init, rfl⟩
        · exact ⟨first, rfl⟩
        · exact ⟨first ++ separator :: init, by simp⟩
    · rw [splitAt_of_notMem hmem, List.mem_singleton] at h
      subst h
      exact ⟨hmem, [], [], (List.append_nil line).symm, .inl rfl, .inl rfl⟩

theorem mem_splitAt_of_ends (hline : separator ∉ line) (hafter : Ends separator after) :
    line ∈ splitAt separator (line ++ after) := by
  rcases hafter with rfl | ⟨rest, rfl⟩
  · rw [List.append_nil, splitAt_of_notMem hline]
    exact List.mem_singleton_self line
  · rw [splitAt_append_cons, splitAt_of_notMem hline]
    exact List.mem_cons_self

/-- A piece begins at the start or behind a separator, and it goes on up to the next separator or to
the end. -/
theorem mem_splitAt_iff : line ∈ splitAt separator cs ↔ separator ∉ line ∧ ∃ before after,
    cs = before ++ (line ++ after) ∧ Begins separator before ∧ Ends separator after := by
  refine ⟨exists_of_mem_splitAt, ?_⟩
  rintro ⟨hline, before, after, rfl, rfl | ⟨init, rfl⟩, hafter⟩
  · exact mem_splitAt_of_ends hline hafter
  · rw [List.append_assoc, List.singleton_append, splitAt_append_cons]
    exact List.mem_append_right _ (mem_splitAt_of_ends hline hafter)

end Text

/-! ### Content -/

namespace Config

/-- A text has content: in some line the first character that is not blank begins no comment. -/
def HasContent (text : String) : Prop :=
  ∃ before indent after : List Char, ∃ c : Char,
    text.toList = before ++ (indent ++ c :: after) ∧ Text.Begins '\n' before ∧
      (∀ blank ∈ indent, isWhitespace blank = true ∧ blank ≠ '\n') ∧
        isWhitespace c = false ∧ c ≠ '#'

theorem isContent_iff {line : List Char} : isContent line = true ↔
    ∃ indent after c, line = indent ++ c :: after ∧ (∀ blank ∈ indent, isWhitespace blank = true) ∧
      isWhitespace c = false ∧ c ≠ '#' := by
  constructor
  · intro h
    unfold isContent at h
    split at h
    · exact absurd h nofun
    · rename_i c after htrim
      refine ⟨line.takeWhile isWhitespace, after, c, ?_, fun blank hblank ↦
        List.mem_takeWhile_imp hblank, ?_, of_decide_eq_true h⟩
      · rw [← htrim]
        exact List.takeWhile_append_dropWhile.symm
      · have hhead := List.head?_dropWhile_not isWhitespace line
        rw [show line.dropWhile isWhitespace = c :: after from htrim] at hhead
        exact hhead
  · rintro ⟨indent, after, c, rfl, hindent, hc, hmark⟩
    have htrim : Text.trimStart (indent ++ c :: after) = c :: after := by
      rw [Text.trimStart, List.dropWhile_append_of_pos hindent,
        List.dropWhile_cons_of_neg (by rw [hc]; exact nofun)]
    rw [isContent, htrim]
    exact decide_eq_true hmark

theorem hasContent_iff {text : String} : hasContent text = true ↔ HasContent text := by
  rw [hasContent, List.any_eq_true]
  constructor
  · rintro ⟨line, hline, hcontent⟩
    obtain ⟨hwhole, before, after, htext, hbefore, -⟩ := Text.mem_splitAt_iff.mp hline
    obtain ⟨indent, rest, c, rfl, hindent, hc, hmark⟩ := isContent_iff.mp hcontent
    refine ⟨before, indent, rest ++ after, c, by rw [htext]; simp, hbefore, fun blank hblank ↦
      ⟨hindent blank hblank, ?_⟩, hc, hmark⟩
    rintro rfl
    exact hwhole (List.mem_append_left _ hblank)
  · rintro ⟨before, indent, after, c, htext, hbefore, hindent, hc, hmark⟩
    -- The line goes on behind its first character up to the next line end.
    have hc' : c ≠ '\n' := by
      rintro rfl
      exact absurd hc (by decide)
    refine ⟨indent ++ c :: after.takeWhile (· ≠ '\n'), Text.mem_splitAt_iff.mpr ⟨?_, before,
      after.dropWhile (· ≠ '\n'), ?_, hbefore, ?_⟩, isContent_iff.mpr ⟨indent, _, c, rfl,
        fun blank hblank ↦ (hindent blank hblank).1, hc, hmark⟩⟩
    · rw [List.mem_append, List.mem_cons, not_or, not_or]
      refine ⟨fun hmem ↦ (hindent _ hmem).2 rfl, hc'.symm, fun hmem ↦ ?_⟩
      simpa using List.mem_takeWhile_imp hmem
    · rw [htext, List.append_assoc, List.cons_append, List.takeWhile_append_dropWhile]
    · cases hrest : after.dropWhile (· ≠ '\n') with
      | nil => exact .inl rfl
      | cons d rest =>
        have hhead := List.head?_dropWhile_not (· ≠ '\n') after
        rw [hrest] at hhead
        exact .inr ⟨rest, by simpa using hhead⟩

/-- A text has no content if none of its lines has. -/
theorem not_hasContent_join {lines : List String}
    (h : ∀ line ∈ lines, '\n' ∉ line.toList ∧ isContent line.toList = false) :
    ¬HasContent (String.join (lines.map (· ++ "\n"))) := by
  rw [← hasContent_iff, Bool.not_eq_true, hasContent, String.toList_join, List.flatMap_map]
  induction lines with
  | nil => rfl
  | cons line rest ih =>
    obtain ⟨⟨hwhole, hline⟩, hrest⟩ := List.forall_mem_cons.mp h
    rw [List.flatMap_cons, String.toList_append, show "\n".toList = ['\n'] from rfl,
      List.append_assoc, List.singleton_append, Text.splitAt_append_cons,
      Text.splitAt_of_notMem hwhole, List.any_append, ih hrest, List.any_cons, hline]
    rfl

/-- A new file of the user has comments only. -/
theorem not_hasContent_initialText : ¬HasContent initialText :=
  not_hasContent_join (by decide +kernel)

end Config

end DebugLink
