import DebugLink.Proofs.Text.Runs

/-!
The words of a text, which white space keeps apart. A text begins with white space and a word that
goes on up to the next white space (`exists_of_nextWord?`), so its words are that one and those of
what is left (`words_append`). Squeezing puts single spaces between the words, and these are the
words of what comes out (`words_squeezed`).
-/

set_option autoImplicit false

namespace DebugLink.Text

/-- Characters that can be one word. -/
def Solid (word : List Char) : Prop :=
  word ≠ [] ∧ ∀ c ∈ word, isWhitespace c = false

/-- White space comes next, or nothing. -/
def Breaks (rest : List Char) : Prop :=
  ∀ c, rest.head? = some c → isWhitespace c = true

theorem breaks_nil : Breaks [] := fun _ h ↦ nomatch h

theorem breaks_cons {c : Char} (h : isWhitespace c = true) (rest : List Char) :
    Breaks (c :: rest) := by
  intro d hd
  obtain rfl : c = d := Option.some.inj hd
  exact h

variable {cs gap word rest : List Char}

theorem nextWord?_of_blank (h : ∀ c ∈ cs, isWhitespace c = true) : nextWord? cs = none := by
  have htrim : trimStart cs = [] := List.dropWhile_eq_nil_iff.mpr h
  unfold nextWord?
  rw [htrim]

/-- The first word goes on up to the next white space. -/
theorem nextWord?_append (hgap : ∀ c ∈ gap, isWhitespace c = true) (hword : Solid word)
    (hrest : Breaks rest) : nextWord? (gap ++ (word ++ rest)) = some (word, rest) := by
  obtain ⟨c, others, rfl⟩ := List.exists_cons_of_ne_nil hword.1
  obtain ⟨hc, hothers⟩ := List.forall_mem_cons.mp hword.2
  have hblack : ∀ d ∈ others, (!isWhitespace d) = true := fun d hd ↦ by
    rw [hothers d hd, Bool.not_false]
  have hends : ∀ d, rest.head? = some d → (!isWhitespace d) = false := fun d hd ↦ by
    rw [hrest d hd, Bool.not_true]
  have hstart : ∀ d, (c :: others ++ rest).head? = some d → isWhitespace d = false := by
    intro d hd
    obtain rfl : c = d := Option.some.inj hd
    exact hc
  have htrim : trimStart (gap ++ (c :: others ++ rest)) = c :: (others ++ rest) :=
    (run_append hgap hstart).2
  obtain ⟨htake, hdrop⟩ := run_append hblack hends
  unfold nextWord?
  rw [htrim]
  dsimp only
  rw [htake, hdrop]

/-- What is found as the first word is one, with white space before and behind it. -/
theorem exists_of_nextWord? (h : nextWord? cs = some (word, rest)) :
    ∃ gap, cs = gap ++ (word ++ rest) ∧ (∀ c ∈ gap, isWhitespace c = true) ∧ Solid word ∧
      Breaks rest := by
  have hstart := List.head?_dropWhile_not isWhitespace cs
  have hsplit : cs.takeWhile isWhitespace ++ trimStart cs = cs := List.takeWhile_append_dropWhile
  unfold nextWord? at h
  cases htrim : trimStart cs with
  | nil =>
    rw [htrim] at h
    cases h
  | cons c others =>
    rw [show cs.dropWhile isWhitespace = c :: others from htrim] at hstart
    have hc : isWhitespace c = false := hstart
    rw [htrim] at h hsplit
    cases h
    refine ⟨cs.takeWhile isWhitespace, ?_, fun d hd ↦ List.mem_takeWhile_imp hd, ⟨by simp, ?_⟩, ?_⟩
    · rw [List.cons_append, List.takeWhile_append_dropWhile, hsplit]
    · refine List.forall_mem_cons.mpr ⟨hc, fun d hd ↦ ?_⟩
      simpa using List.mem_takeWhile_imp hd
    · intro d hd
      have hends := List.head?_dropWhile_not (fun c ↦ !isWhitespace c) others
      rw [hd] at hends
      simpa using hends

theorem blank_of_nextWord? (h : nextWord? cs = none) : ∀ c ∈ cs, isWhitespace c = true := by
  unfold nextWord? at h
  cases htrim : trimStart cs with
  | nil => exact List.dropWhile_eq_nil_iff.mp htrim
  | cons c others =>
    rw [htrim] at h
    cases h

/-! ### All words -/

/-- The words are the first one and those of what it leaves. -/
theorem words_eq (cs : List Char) :
    words cs =
      match nextWord? cs with
      | none => []
      | some (word, rest) => word :: words rest := by
  rw [words]
  split
  all_goals
    rename_i heq
    rw [heq]

theorem words_of_blank (h : ∀ c ∈ cs, isWhitespace c = true) : words cs = [] := by
  rw [words_eq, nextWord?_of_blank h]

theorem words_append (hgap : ∀ c ∈ gap, isWhitespace c = true) (hword : Solid word)
    (hrest : Breaks rest) : words (gap ++ (word ++ rest)) = word :: words rest := by
  rw [words_eq, nextWord?_append hgap hword hrest]

theorem words_cons {c : Char} (h : isWhitespace c = true) (cs : List Char) :
    words (c :: cs) = words cs := by
  have hnext : nextWord? (c :: cs) = nextWord? cs := by
    unfold nextWord?
    rw [show trimStart (c :: cs) = trimStart cs from List.dropWhile_cons_of_pos h]
  rw [words_eq, words_eq cs, hnext]

/-- A text is white space, or it begins with white space and a word that what follows leaves as it
is. -/
theorem words_induction {motive : List Char → Prop}
    (blank : ∀ cs, (∀ c ∈ cs, isWhitespace c = true) → motive cs)
    (word : ∀ gap word rest, (∀ c ∈ gap, isWhitespace c = true) → Solid word → Breaks rest →
      motive rest → motive (gap ++ (word ++ rest))) (cs : List Char) : motive cs := by
  induction cs using words.induct with
  | case1 cs hnone => exact blank cs (blank_of_nextWord? hnone)
  | case2 cs first rest hsome ih =>
    obtain ⟨gap, rfl, hgap, hfirst, hrest⟩ := exists_of_nextWord? hsome
    exact word gap first rest hgap hfirst hrest ih

/-! ### Squeezing -/

/-- The words with single spaces between them. -/
def squeezed (cs : List Char) : List Char :=
  [' '].intercalate (words cs)

theorem squeezed_of_blank (h : ∀ c ∈ cs, isWhitespace c = true) : squeezed cs = [] := by
  rw [squeezed, words_of_blank h]
  rfl

/-- The first word stays, with a space behind it if there are more. -/
theorem squeezed_append (hgap : ∀ c ∈ gap, isWhitespace c = true) (hword : Solid word)
    (hrest : Breaks rest) :
    squeezed (gap ++ (word ++ rest)) =
      word ++ if words rest = [] then [] else ' ' :: squeezed rest := by
  rw [squeezed, words_append hgap hword hrest]
  split_ifs with hlast
  · rw [hlast, List.intercalate_singleton, List.append_nil]
  · obtain ⟨next, others, hwords⟩ := List.exists_cons_of_ne_nil hlast
    rw [squeezed, hwords, List.intercalate_cons_cons, List.append_assoc]
    rfl

theorem isWhitespace_space : isWhitespace ' ' = true := by decide

/-- Squeezing keeps the words. -/
theorem words_squeezed (cs : List Char) : words (squeezed cs) = words cs := by
  induction cs using words_induction with
  | blank cs hblank =>
    rw [squeezed_of_blank hblank, words_of_blank hblank, words_of_blank (by simp)]
  | word gap word rest hgap hword hrest ih =>
    have hnone : ∀ c ∈ ([] : List Char), isWhitespace c = true := by simp
    rw [squeezed_append hgap hword hrest, words_append hgap hword hrest]
    have hfront : ∀ tail, Breaks tail → words (word ++ tail) = word :: words tail :=
      fun tail htail ↦ words_append hnone hword htail
    split_ifs with hlast
    · rw [hfront [] breaks_nil, words_of_blank hnone, hlast]
    · rw [hfront _ (breaks_cons isWhitespace_space _), words_cons isWhitespace_space, ih]

theorem squeezed_squeezed (cs : List Char) : squeezed (squeezed cs) = squeezed cs := by
  rw [squeezed, words_squeezed, squeezed]

end DebugLink.Text
