import DebugLink.Text.Numeral
import Mathlib.Order.Basic

/-!
What the readers of numerals make of plain decimal digits. The number is the one that
`Nat.ofDigitChars` gives to the digits, and a 64 bit number is read exactly if it fits
(`word64?_of_isDigit`).
-/

set_option autoImplicit false

namespace DebugLink.Numeral

theorem digit?_of_isDigit {c : Char} (h : c.isDigit = true) :
    digit? 10 c = some (c.toNat - '0'.toNat) := by
  have hbounds : '0' ≤ c ∧ c ≤ '9' := by
    simpa [Char.isDigit, Char.le_def] using h
  have hlast : c.toNat ≤ '9'.toNat := hbounds.2
  have hsmall : c.toNat - '0'.toNat < 10 := by
    have hnine : '9'.toNat = 57 := rfl
    have hzero : '0'.toNat = 48 := rfl
    omega
  rw [digit?, if_pos hbounds]
  exact Option.filter_some_pos (decide_eq_true hsmall)

/-- No digit of any base is a sign. -/
theorem digits?_cons_of_sign {base : Nat} {c : Char} (hc : c = '+' ∨ c = '-') (rest : List Char) :
    digits? base (c :: rest) = none := by
  rcases hc with rfl | rfl <;> rfl

/-- A number without a sign is read if it is below the bound. -/
theorem unsigned?_of_digits? {base n : Nat} {cs : List Char} (h : digits? base cs = some n)
    (bound : Nat) : unsigned? base bound cs = if n < bound then some n else none := by
  have hplain : unsigned? base bound cs = (digits? base cs).filter (· < bound) := by
    rw [unsigned?]
    rintro rest rfl
    rw [digits?_cons_of_sign (.inl rfl)] at h
    cases h
  rw [hplain, h, Option.filter_some]
  simp

theorem signed?_of_digits? {base n : Nat} {cs : List Char} (h : digits? base cs = some n)
    (bound : Nat) :
    signed? base bound cs =
      if -(bound : Int) ≤ n ∧ (n : Int) < bound then some (n : Int) else none := by
  have hplain : signed? base bound cs = (unsigned? base bound cs).map Int.ofNat := by
    rw [signed?]
    rintro rest rfl
    rw [digits?_cons_of_sign (.inr rfl)] at h
    cases h
  rw [hplain, unsigned?_of_digits? h]
  split_ifs <;> first | rfl | omega

theorem digitsFrom?_of_isDigit {cs : List Char} (h : ∀ c ∈ cs, c.isDigit = true) (value : Nat) :
    digitsFrom? 10 value cs = some (Nat.ofDigitChars 10 cs value) := by
  induction cs generalizing value with
  | nil => rfl
  | cons c rest ih =>
    have hdigit := digit?_of_isDigit (h c List.mem_cons_self)
    have hrest := ih (fun d hd ↦ h d (List.mem_cons_of_mem c hd))
    rw [digitsFrom?, hdigit]
    show digitsFrom? 10 (value * 10 + (c.toNat - '0'.toNat)) rest = _
    rw [hrest, Nat.mul_comm value 10]
    rfl

theorem digits?_of_isDigit {cs : List Char} (hne : cs ≠ []) (h : ∀ c ∈ cs, c.isDigit = true) :
    digits? 10 cs = some (Nat.ofDigitChars 10 cs 0) := by
  rw [digits?]
  · exact digitsFrom?_of_isDigit h 0
  · exact hne

/-- Decimal digits are read as the number they spell, unless that has more than 64 bits. -/
theorem word64?_of_isDigit {s : String} (hne : s.toList ≠ [])
    (h : ∀ c ∈ s.toList, c.isDigit = true) :
    word64? s =
      if Nat.ofDigitChars 10 s.toList 0 < UInt64.size then
        some (UInt64.ofNat (Nat.ofDigitChars 10 s.toList 0))
      else none := by
  rw [word64?, unsigned?_of_digits? (digits?_of_isDigit hne h)]
  split_ifs
  · rw [Option.map_some]
  · rw [Option.map_none]

/-! ### Decimal numbers -/

theorem isDigit_of_mem_toString {n : Nat} {c : Char} (h : c ∈ (toString n).toList) :
    c.isDigit = true := by
  rw [Nat.toString_eq_repr, Nat.toList_repr] at h
  exact Nat.isDigit_of_mem_toDigits (by omega) (by omega) h

theorem toString_ne_nil (n : Nat) : (toString n).toList ≠ [] := by
  rw [Nat.toString_eq_repr, Nat.toList_repr]
  exact Nat.toDigits_ne_nil

theorem digits?_toString (n : Nat) : digits? 10 (toString n).toList = some n := by
  rw [digits?_of_isDigit (toString_ne_nil n) fun c hc ↦ isDigit_of_mem_toString hc,
    Nat.toString_eq_repr, Nat.toList_repr, Nat.ofDigitChars_ten_toDigits]

/-- A decimal number without a sign is read if it is below the bound. -/
theorem unsigned?_toString (n bound : Nat) :
    unsigned? 10 bound (toString n).toList = if n < bound then some n else none :=
  unsigned?_of_digits? (digits?_toString n) bound

theorem toList_toString_negSucc (n : Nat) :
    (toString (Int.negSucc n)).toList = '-' :: (toString (n + 1)).toList :=
  String.toList_append ..

/-- A decimal number is read if it is within the bounds. -/
theorem signed?_toString (z : Int) (bound : Nat) :
    signed? 10 bound (toString z).toList =
      if -(bound : Int) ≤ z ∧ z < bound then some z else none := by
  cases z with
  | ofNat n => exact signed?_of_digits? (digits?_toString n) bound
  | negSucc n =>
    rw [toList_toString_negSucc, signed?, digits?_toString, Option.filter_some, Int.negSucc_eq]
    simp only [decide_eq_true_eq]
    split_ifs <;> first | rfl | omega

/-- The digits of a number are those of the base. -/
theorem mem_toDigits {base n : Nat} {c : Char} (hbase : 1 < base)
    (h : c ∈ Nat.toDigits base n) : ∃ d < base, c = Nat.digitChar d := by
  induction n using Nat.strongRecOn with
  | ind n ih =>
    by_cases hsmall : n < base
    · rw [Nat.toDigits_of_lt_base hsmall, List.mem_singleton] at h
      exact ⟨n, hsmall, h⟩
    · rw [Nat.toDigits_of_base_le hbase (Nat.not_lt.mp hsmall), List.mem_append,
        List.mem_singleton] at h
      rcases h with hfront | hlast
      · exact ih (n / base) (Nat.div_lt_self (by omega) hbase) hfront
      · exact ⟨n % base, Nat.mod_lt n (by omega), hlast⟩

end DebugLink.Numeral
