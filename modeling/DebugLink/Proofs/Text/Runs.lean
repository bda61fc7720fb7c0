import DebugLink.Text.Whitespace
import Mathlib.Data.List.TakeWhile

/-!
Runs of characters of one class. A run that is followed by a character of another class ends there
(`Text.run_append`), which is how words are told from what stands behind them. Letters and digits
are the ASCII ones.
-/

set_option autoImplicit false

namespace DebugLink.Text

variable {α : Type} {p : α → Bool}

theorem takeWhile_append_of_head {tail : List α} (h : ∀ c, tail.head? = some c → p c = false)
    (chars : List α) : (chars ++ tail).takeWhile p = chars.takeWhile p := by
  have htail : tail.takeWhile p = [] := by
    cases tail with
    | nil => rfl
    | cons c others => rw [List.takeWhile_cons_of_neg (Bool.eq_false_iff.mp (h c rfl))]
  rw [List.takeWhile_append, htail, List.append_nil]
  have hrun : chars.takeWhile p <+: chars := List.takeWhile_prefix p
  split_ifs with hall
  · exact (hrun.eq_of_length hall).symm
  · rfl

theorem dropWhile_append_of_head {tail : List α} (h : ∀ c, tail.head? = some c → p c = false)
    (chars : List α) : (chars ++ tail).dropWhile p = chars.dropWhile p ++ tail := by
  have htail : tail.dropWhile p = tail := by
    cases tail with
    | nil => rfl
    | cons c others => rw [List.dropWhile_cons_of_neg (Bool.eq_false_iff.mp (h c rfl))]
  rw [List.dropWhile_append, htail]
  split_ifs with hall
  · rw [List.isEmpty_iff.mp hall, List.nil_append]
  · rfl

/-- A run of characters of one class ends where a character of another class follows. -/
theorem run_append {run rest : List α} (hrun : ∀ c ∈ run, p c = true)
    (hrest : ∀ c, rest.head? = some c → p c = false) :
    (run ++ rest).takeWhile p = run ∧ (run ++ rest).dropWhile p = rest := by
  rw [takeWhile_append_of_head hrest, dropWhile_append_of_head hrest]
  have hdrop : run.dropWhile p = [] := List.dropWhile_eq_nil_iff.mpr hrun
  have htake : run.takeWhile p = run := List.takeWhile_eq_self_iff.mpr hrun
  rw [hdrop, htake]
  exact ⟨rfl, rfl⟩

/-- A run of at most so many characters of a class is as long as that, or ends where a character of
another class follows, or nothing. -/
theorem length_run_or_stops (p : α → Bool) (limit : Nat) (chars : List α) :
    ((chars.take limit).takeWhile p).length = limit ∨
      ∀ c, (chars.drop ((chars.take limit).takeWhile p).length).head? = some c → p c = false := by
  induction limit generalizing chars with
  | zero => exact .inl rfl
  | succ limit ih =>
    cases chars with
    | nil => exact .inr (by simp)
    | cons c rest =>
      cases hclass : p c with
      | true => simpa [hclass] using ih rest
      | false => exact .inr (by simp [hclass])

/-! ### The ends of a text -/

/-- What is dropped at the end is a run of characters that another one stands before. -/
theorem dropEndWhile_append {p : Char → Bool} {front run : List Char}
    (hrun : ∀ c ∈ run, p c = true) (hfront : ∀ c, front.getLast? = some c → p c = false) :
    dropEndWhile p (front ++ run) = front := by
  have hreverse : ∀ c ∈ run.reverse, p c = true := fun c hc ↦ hrun c (List.mem_reverse.mp hc)
  have hhead : ∀ c, front.reverse.head? = some c → p c = false := by
    intro c hc
    rw [List.head?_reverse] at hc
    exact hfront c hc
  rw [dropEndWhile, List.reverse_append, (run_append hreverse hhead).2, List.reverse_reverse]

/-- A text that neither begins nor ends in white space is left as it is. -/
theorem trim_eq_self {chars : List Char}
    (hhead : ∀ c, chars.head? = some c → isWhitespace c = false)
    (hlast : ∀ c, chars.getLast? = some c → isWhitespace c = false) : trim chars = chars := by
  have hstart : trimStart chars = chars := by
    cases chars with
    | nil => rfl
    | cons c rest =>
      rw [trimStart, List.dropWhile_cons_of_neg (Bool.eq_false_iff.mp (hhead c rfl))]
  have hnone : ∀ c ∈ ([] : List Char), isWhitespace c = true := by simp
  have hend := dropEndWhile_append hnone hlast
  rw [List.append_nil] at hend
  rw [trim, hstart, trimEnd, hend]

/-! ### Letters and digits -/

/-- What holds of the characters of ASCII one by one holds of each of them. -/
theorem of_ascii {P : Char → Prop} (h : ∀ n < 128, P (Char.ofNat n)) {c : Char}
    (hc : c.toNat < 128) : P c := by
  have hchar := h c.toNat hc
  rwa [Char.ofNat_toNat] at hchar

/-- A number of characters in a row. -/
def charRange (first : Char) (count : Nat) : List Char :=
  (List.range count).map fun i ↦ Char.ofNat (first.toNat + i)

theorem isAlpha_iff_toNat {c : Char} :
    c.isAlpha = true ↔ 'A'.toNat ≤ c.toNat ∧ c.toNat ≤ 'Z'.toNat ∨
      'a'.toNat ≤ c.toNat ∧ c.toNat ≤ 'z'.toNat := by
  show (decide (c.val ≥ 'A'.val ∧ c.val ≤ 'Z'.val) ||
    decide (c.val ≥ 'a'.val) && decide (c.val ≤ 'z'.val)) = true ↔ _
  simp only [Bool.or_eq_true, Bool.and_eq_true, decide_eq_true_eq]
  exact Iff.rfl

theorem ascii_of_isAlphanum {c : Char} (h : c.isAlphanum = true) : c.toNat < 128 := by
  have hupper : 'Z'.toNat = 90 := rfl
  have hlower : 'z'.toNat = 122 := rfl
  have hdigit : '9'.toNat = 57 := rfl
  rw [Char.isAlphanum, Bool.or_eq_true, isAlpha_iff_toNat, Char.isDigit_iff_toNat] at h
  omega

end DebugLink.Text
