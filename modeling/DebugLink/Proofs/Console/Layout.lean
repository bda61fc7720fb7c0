import DebugLink.Proofs.Text.Words
import Mathlib.Data.List.DropRight

/-!
Arguments as they are laid out on a line, with any white space between them and behind the last
one. Arguments that are words come back as the words of the line (`Laid.words_eq`), also when the
white space around it is gone (`words_trim`). An argument with white space in it comes back as what
is left behind those before it (`Laid.trim_cons`, `Laid.trim_singleton`).
-/

set_option autoImplicit false

namespace DebugLink.Text

variable {cs : List Char} {part : String} {parts : List String}

/-! ### Both ends of a text -/

/-- What is dropped at the end does not reach beyond a character that is no white space. -/
theorem trimEnd_append {front : List Char}
    (hfront : ∀ c, front.getLast? = some c → isWhitespace c = false) (rest : List Char) :
    trimEnd (front ++ rest) = front ++ trimEnd rest := by
  have hhead : ∀ c, front.reverse.head? = some c → isWhitespace c = false := by
    intro c hc
    rw [List.head?_reverse] at hc
    exact hfront c hc
  rw [trimEnd, dropEndWhile, List.reverse_append, dropWhile_append_of_head hhead,
    List.reverse_append, List.reverse_reverse]
  rfl

theorem trimEnd_of_blank (h : ∀ c ∈ cs, isWhitespace c = true) : trimEnd cs = [] := by
  have hreverse : ∀ c ∈ cs.reverse, isWhitespace c = true := fun c hc ↦
    h c (List.mem_reverse.mp hc)
  rw [trimEnd, dropEndWhile, List.dropWhile_eq_nil_iff.mpr hreverse, List.reverse_nil]

theorem exists_trimEnd_append (cs : List Char) : ∃ dropped, trimEnd cs ++ dropped = cs := by
  have hend : cs.reverse.dropWhile isWhitespace <:+ cs.reverse := List.dropWhile_suffix _
  obtain ⟨dropped, hsplit⟩ := hend
  refine ⟨dropped.reverse, ?_⟩
  rw [trimEnd, dropEndWhile, ← List.reverse_append, hsplit, List.reverse_reverse]

theorem breaks_trimEnd (h : Breaks cs) : Breaks (trimEnd cs) := by
  intro c hc
  obtain ⟨dropped, hsplit⟩ := exists_trimEnd_append cs
  refine h c ?_
  rw [← hsplit, List.head?_append, hc]
  rfl

/-- Without white space around it, a text is what stands in it from one end to the other. -/
theorem trim_append {gap front : List Char} (hgap : ∀ c ∈ gap, isWhitespace c = true)
    (hne : front ≠ []) (hhead : ∀ c, front.head? = some c → isWhitespace c = false)
    (hlast : ∀ c, front.getLast? = some c → isWhitespace c = false) (rest : List Char) :
    trim (gap ++ (front ++ rest)) = front ++ trimEnd rest := by
  have hstart : ∀ c, (front ++ rest).head? = some c → isWhitespace c = false := by
    intro c hc
    rw [List.head?_append_of_ne_nil _ hne] at hc
    exact hhead c hc
  rw [trim, trimStart, (run_append hgap hstart).2, trimEnd_append hlast]

theorem Solid.head {word : List Char} (hword : Solid word) :
    ∀ c, word.head? = some c → isWhitespace c = false :=
  fun c hc ↦ hword.2 c (List.mem_of_mem_head? hc)

theorem Solid.last {word : List Char} (hword : Solid word) :
    ∀ c, word.getLast? = some c → isWhitespace c = false :=
  fun c hc ↦ hword.2 c (List.mem_of_mem_getLast? hc)

theorem getLast?_append_last {front back : List Char} (hne : back ≠ [])
    (hback : ∀ c, back.getLast? = some c → isWhitespace c = false) :
    ∀ c, (front ++ back).getLast? = some c → isWhitespace c = false := by
  intro c hc
  rw [List.getLast?_append_of_ne_nil front hne] at hc
  exact hback c hc

theorem trim_of_blank (h : ∀ c ∈ cs, isWhitespace c = true) : trim cs = [] := by
  have hstart : trimStart cs = [] := List.dropWhile_eq_nil_iff.mpr h
  rw [trim, hstart]
  rfl

/-- White space that is gone from the end need not be looked for there. -/
theorem trim_trimEnd (cs : List Char) : trim (trimEnd cs) = trim cs := by
  cases hnext : nextWord? cs with
  | none =>
    have hblank := blank_of_nextWord? hnext
    rw [trimEnd_of_blank hblank, trim_of_blank hblank]
    rfl
  | some found =>
    obtain ⟨gap, rfl, hgap, hword, -⟩ := exists_of_nextWord? hnext
    rw [trim_append hgap hword.1 hword.head hword.last, ← List.append_assoc,
      trimEnd_append (getLast?_append_last hword.1 hword.last), List.append_assoc,
      trim_append hgap hword.1 hword.head hword.last]
    exact congrArg _ (List.rdropWhile_idempotent _ _)

/-- White space around a text does not change its words. -/
theorem words_trim (cs : List Char) : words (trim cs) = words cs := by
  have hstart : words (trimStart cs) = words cs := by
    have hnext : nextWord? (trimStart cs) = nextWord? cs := by
      unfold nextWord?
      rw [show trimStart (trimStart cs) = trimStart cs from List.dropWhile_idempotent _ cs]
    rw [words_eq, words_eq cs, hnext]
  have hend : ∀ cs, words (trimEnd cs) = words cs := by
    intro cs
    induction cs using words_induction with
    | blank cs hblank =>
      rw [trimEnd_of_blank hblank, words_of_blank hblank, words_of_blank (by simp)]
    | word gap word rest hgap hword hrest ih =>
      rw [← List.append_assoc, trimEnd_append (getLast?_append_last hword.1 hword.last),
        List.append_assoc, words_append hgap hword (breaks_trimEnd hrest), List.append_assoc,
        words_append hgap hword hrest, ih]
  rw [trim, hend, hstart]

/-! ### Arguments -/

/-- A text that can be one word. -/
def IsWord (s : String) : Prop :=
  Solid s.toList

theorem isWord_of_any {s : String} (hne : s.toList ≠ [])
    (hall : s.toList.any isWhitespace = false) : IsWord s :=
  ⟨hne, fun c hc ↦ Bool.eq_false_iff.mpr (List.any_eq_false.mp hall c hc)⟩

/-- A text that is not empty and has no white space around it. -/
structure IsPhrase (s : String) : Prop where
  ne_nil : s.toList ≠ []
  head : ∀ c, s.toList.head? = some c → isWhitespace c = false
  last : ∀ c, s.toList.getLast? = some c → isWhitespace c = false

theorem IsWord.isPhrase (h : IsWord part) : IsPhrase part :=
  ⟨h.1, Solid.head h, Solid.last h⟩

theorem IsPhrase.isEmpty_eq (h : IsPhrase part) : part.isEmpty = false := by
  rw [Bool.eq_false_iff, ne_eq, String.isEmpty_iff]
  rintro rfl
  exact h.ne_nil rfl

/-- Arguments laid out behind something: each has white space in front, and there may be more white
space at the end. -/
inductive Laid : List String → List Char → Prop
  | nil {gap : List Char} : (∀ c ∈ gap, isWhitespace c = true) → Laid [] gap
  | cons {gap rest : List Char} {part : String} {parts : List String} :
    gap ≠ [] → (∀ c ∈ gap, isWhitespace c = true) → Laid parts rest →
      Laid (part :: parts) (gap ++ (part.toList ++ rest))

namespace Laid

theorem breaks (h : Laid parts cs) : Breaks cs := by
  cases h with
  | nil hblank => exact fun c hc ↦ hblank c (List.mem_of_mem_head? hc)
  | cons hne hblank _ =>
    obtain ⟨c, others, rfl⟩ := List.exists_cons_of_ne_nil hne
    exact breaks_cons (hblank c List.mem_cons_self) _

/-- Arguments that are words are the words of the text. -/
theorem words_eq (h : Laid parts cs) (hparts : ∀ part ∈ parts, IsWord part) :
    (words cs).map String.ofList = parts := by
  induction h with
  | nil hblank => rw [words_of_blank hblank, List.map_nil]
  | cons hne hblank hrest ih =>
    obtain ⟨hpart, hothers⟩ := List.forall_mem_cons.mp hparts
    rw [words_append hblank hpart hrest.breaks, List.map_cons, ih hothers, String.ofList_toList]

theorem trimEnd (h : Laid parts cs) (hparts : ∀ part ∈ parts, IsPhrase part) :
    Laid parts (Text.trimEnd cs) := by
  induction h with
  | nil hblank =>
    rw [trimEnd_of_blank hblank]
    exact .nil nofun
  | @cons gap rest part parts hne hblank _ ih =>
    obtain ⟨hpart, hothers⟩ := List.forall_mem_cons.mp hparts
    rw [← List.append_assoc, trimEnd_append (getLast?_append_last hpart.ne_nil hpart.last),
      List.append_assoc]
    exact .cons hne hblank (ih hothers)

theorem trim_nil (h : Laid [] cs) : trim cs = [] := by
  cases h with
  | nil hblank => exact trim_of_blank hblank

/-- Without white space around it, the text begins with the first argument. -/
theorem trim_cons (h : Laid (part :: parts) cs) (hpart : IsPhrase part) :
    ∃ rest, trim cs = part.toList ++ Text.trimEnd rest ∧ Laid parts rest := by
  cases h with
  | @cons gap rest _ _ hne hblank hrest =>
    exact ⟨rest, trim_append hblank hpart.ne_nil hpart.head hpart.last rest, hrest⟩

/-- A single argument is all that is left without white space around it. -/
theorem trim_singleton (h : Laid [part] cs) (hpart : IsPhrase part) : trim cs = part.toList := by
  obtain ⟨rest, htrim, hrest⟩ := h.trim_cons hpart
  cases hrest with
  | nil hblank => rw [htrim, trimEnd_of_blank hblank, List.append_nil]

end Laid

end DebugLink.Text
