import DebugLink.Proofs.Watch.Addresses
import DebugLink.Proofs.Watch.Kinship
import DebugLink.Proofs.Watch.Lengths
import Mathlib.Algebra.Group.Int.Defs
import Mathlib.Algebra.Group.Nat.Defs

/-!
Numbers as they are printed. An integer is printed in decimal, or in base sixteen with digits of
either case and any zeros in front (`Numeral.Prints`), and whatever stands behind white space does
not count. The reader for signed numbers and the one for unsigned numbers both read it if it is
within their bounds (`Numeral.Prints.reads`). The first to be tried is the signed one, so a watch
decodes to the integer itself as long as one of the two types holds it, and to the printed value
otherwise (`Watch.decode_int_exact`).
-/

set_option autoImplicit false

namespace DebugLink

namespace Numeral

/-! ### Digits in base sixteen -/

theorem digit?_toLower (c : Char) : digit? 16 c.toLower = digit? 16 c := by
  by_cases hascii : c.toNat < 128
  · have hall : ∀ n < 128, digit? 16 (Char.ofNat n).toLower = digit? 16 (Char.ofNat n) := by
      decide +kernel
    exact Text.of_ascii (P := fun c ↦ digit? 16 c.toLower = digit? 16 c) hall hascii
  · have hsame : c.toLower = c := by
      unfold Char.toLower
      rw [dif_neg]
      rintro ⟨-, hlast⟩
      exact hascii (Nat.lt_of_le_of_lt (UInt32.le_iff_toNat_le.mp hlast) (by decide))
    rw [hsame]

theorem digitsFrom?_toLower (value : Nat) (cs : List Char) :
    digitsFrom? 16 value (cs.map Char.toLower) = digitsFrom? 16 value cs := by
  induction cs generalizing value with
  | nil => rfl
  | cons c rest ih =>
    rw [List.map_cons, digitsFrom?, digitsFrom?, digit?_toLower]
    cases digit? 16 c with
    | none => rfl
    | some d => exact ih _

theorem digitsFrom?_zeros (zeros : Nat) (cs : List Char) :
    digitsFrom? 16 0 (List.replicate zeros '0' ++ cs) = digitsFrom? 16 0 cs := by
  induction zeros with
  | zero => rfl
  | succ zeros ih => exact ih

/-- Digits in base sixteen are read whatever their case, and zeros in front change nothing. -/
theorem digits?_of_toLower {n zeros : Nat} {digits : List Char}
    (h : digits.map Char.toLower = List.replicate zeros '0' ++ Nat.toDigits 16 n) :
    digits? 16 digits = some n := by
  have hne : digits ≠ [] := by
    rintro rfl
    have hnil := (List.append_eq_nil_iff.mp h.symm).2
    exact Nat.toDigits_ne_nil hnil
  rw [digits?]
  · rw [← digitsFrom?_toLower, h, digitsFrom?_zeros, digitsFrom?_toDigits]
  · exact hne

/-! ### Printed integers -/

/-- How an integer may be printed: in decimal, or in base sixteen if it is not negative. -/
inductive Prints : Int → List Char → Prop
  | decimal (z : Int) : Prints z (toString z).toList
  | hexadecimal {n : Nat} {digits : List Char} (zeros : Nat) :
    digits.map Char.toLower = List.replicate zeros '0' ++ Nat.toDigits 16 n →
      Prints n ('0' :: 'x' :: digits)

theorem isWhitespace_of_isDigit {c : Char} (h : isDigit 16 c = true) : isWhitespace c = false := by
  have hall : ∀ n < 128, isDigit 16 (Char.ofNat n) = true →
      isWhitespace (Char.ofNat n) = false := by decide +kernel
  have hascii : c.toNat < 128 := by
    by_contra hbig
    have hlast : ∀ d : Char, d.toNat < 128 → ¬ c ≤ d := fun d hd hle ↦
      hbig (Nat.lt_of_le_of_lt (show c.toNat ≤ d.toNat from hle) hd)
    have hnone : digit? 16 c = none := by
      unfold digit?
      rw [if_neg fun hc ↦ hlast '9' (by decide) hc.2, if_neg fun hc ↦ hlast 'f' (by decide) hc.2,
        if_neg fun hc ↦ hlast 'F' (by decide) hc.2]
      rfl
    rw [isDigit, hnone] at h
    cases h
  exact Text.of_ascii (P := fun c ↦ isDigit 16 c = true → isWhitespace c = false) hall hascii h

theorem isDigit_of_digitsFrom? {base value n : Nat} {cs : List Char}
    (h : digitsFrom? base value cs = some n) : ∀ c ∈ cs, isDigit base c = true := by
  induction cs generalizing value with
  | nil => simp
  | cons c rest ih =>
    rw [digitsFrom?] at h
    obtain ⟨d, hd, hrest⟩ := Option.bind_eq_some_iff.mp h
    exact List.forall_mem_cons.mpr ⟨by rw [isDigit, hd]; rfl, ih hrest⟩

theorem isDigit_of_digits? {base n : Nat} {cs : List Char} (h : digits? base cs = some n) :
    ∀ c ∈ cs, isDigit base c = true := by
  cases cs with
  | nil => cases h
  | cons c rest => exact isDigit_of_digitsFrom? h

/-- A printed integer is one word. -/
theorem Prints.solid {z : Int} {cs : List Char} (h : Prints z cs) : Text.Solid cs := by
  cases h with
  | decimal => exact solid_toString z
  | hexadecimal zeros hdigits =>
    refine ⟨List.cons_ne_nil _ _, ?_⟩
    refine List.forall_mem_cons.mpr ⟨by decide, List.forall_mem_cons.mpr ⟨by decide, ?_⟩⟩
    exact fun c hc ↦ isWhitespace_of_isDigit (isDigit_of_digits? (digits?_of_toLower hdigits) c hc)

/-- A decimal number is not read as an unsigned one if it is negative. -/
theorem unsigned?_toString_int (z : Int) (bound : Nat) :
    unsigned? 10 bound (toString z).toList =
      if 0 ≤ z ∧ z < bound then some z.toNat else none := by
  cases z with
  | ofNat n =>
    refine (unsigned?_toString n bound).trans ?_
    simp
  | negSucc n =>
    have hnegative : ¬ 0 ≤ Int.negSucc n := Int.not_le.mpr (Int.negSucc_lt_zero n)
    rw [toList_toString_negSucc, if_neg fun h ↦ hnegative h.1, unsigned?]
    · rw [digits?_cons_of_sign (.inr rfl)]
      rfl
    · rintro rest heq
      exact absurd (List.cons.inj heq).1 (by decide)

/-- Both readers find a printed integer if it is within their bounds. -/
theorem Prints.reads {z : Int} {cs : List Char} (h : Prints z cs) (bound : Nat) :
    signed? (based cs).1 bound (based cs).2 =
        (if -(bound : Int) ≤ z ∧ z < bound then some z else none) ∧
      unsigned? (based cs).1 bound (based cs).2 =
        if 0 ≤ z ∧ z < bound then some z.toNat else none := by
  cases h with
  | decimal =>
    rw [based_toString]
    exact ⟨signed?_toString z bound, unsigned?_toString_int z bound⟩
  | @hexadecimal n digits zeros hdigits =>
    have hread := digits?_of_toLower hdigits
    refine ⟨signed?_of_digits? hread bound, (unsigned?_of_digits? hread bound).trans ?_⟩
    simp

end Numeral

namespace Printed

open Numeral (Prints)

variable {z : Int} {word tail : List Char} {value : String}

/-- An integer at the front of a printed value is read as a signed number if it is one of 64 bits,
else as an unsigned one. -/
theorem number?_of_prints (h : Prints z word) (hvalue : value.toList = word ++ tail)
    (htail : Text.Breaks tail) :
    number? value =
      if -2 ^ 63 ≤ z ∧ z < 2 ^ 63 then some (.int (Int64.ofInt z))
      else if 0 ≤ z ∧ z < 2 ^ 64 then some (.uint (UInt64.ofNat z.toNat)) else none := by
  have hnumeral := numeral?_append hvalue h.solid htail
  have hint : int? value = if -2 ^ 63 ≤ z ∧ z < 2 ^ 63 then some (Int64.ofInt z) else none := by
    unfold int?
    rw [hnumeral]
    dsimp only [bind, Option.bind]
    rw [(h.reads (Int64.size / 2)).1, show ((Int64.size / 2 : Nat) : Int) = 2 ^ 63 from rfl]
    split_ifs <;> rfl
  have huint : uint? value =
      if 0 ≤ z ∧ z < 2 ^ 64 then some (UInt64.ofNat z.toNat) else none := by
    unfold uint?
    rw [hnumeral]
    dsimp only [bind, Option.bind]
    rw [(h.reads UInt64.size).2, show (UInt64.size : Int) = 2 ^ 64 from rfl]
    split_ifs <;> rfl
  rw [number?, hint, huint]
  split_ifs <;> rfl

end Printed

namespace Watch

open Numeral (Prints)

variable {table : VariableTable} {name numeral tail : String} {z : Int}

/-- A watch for an integer takes the first type that holds the integer, and keeps the printed value
if none does. -/
theorem decode_int_of_prints (hnumeral : Prints z numeral.toList) (htail : Text.Breaks tail.toList)
    (hreading : table.reading? name = some (some (numeral ++ tail), true)) (expression : String) :
    decode table ⟨name, expression, .int⟩ =
      if -2 ^ 63 ≤ z ∧ z < 2 ^ 63 then .int (Int64.ofInt z)
      else if 0 ≤ z ∧ z < 2 ^ 64 then .uint (UInt64.ofNat z.toNat) else .raw (numeral ++ tail) := by
  rw [decode_of_reading? hreading]
  show (Printed.number? (numeral ++ tail)).getD (.raw (numeral ++ tail)) = _
  rw [Printed.number?_of_prints hnumeral String.toList_append htail]
  split_ifs <;> rfl

theorem decode_describe_int (n : Int64)
    (hreading : table.reading? name = some (some (Native.int n).describe, true))
    (expression : String) : decode table ⟨name, expression, .int⟩ = .int n := by
  have hnothing : Text.Breaks "".toList := Text.breaks_nil
  rw [← String.append_empty (s := (Native.int n).describe)] at hreading
  rw [decode_int_of_prints (.decimal n.toInt) hnothing hreading,
    if_pos ⟨n.le_toInt, n.toInt_lt⟩, Int64.ofInt_toInt]

/-- An unsigned number comes back as one if it is too large for a signed one. -/
theorem decode_describe_uint {n : UInt64} (hlarge : 2 ^ 63 ≤ n.toNat)
    (hreading : table.reading? name = some (some (Native.uint n).describe, true))
    (expression : String) : decode table ⟨name, expression, .int⟩ = .uint n := by
  have hnothing : Text.Breaks "".toList := Text.breaks_nil
  have hn := n.toNat_lt
  rw [← String.append_empty (s := (Native.uint n).describe)] at hreading
  rw [decode_int_of_prints (.decimal n.toNat) hnothing hreading, if_neg (by omega),
    if_pos (by omega), Int.toNat_natCast, UInt64.ofNat_toNat]

theorem decode_describe_raw {printed : String} (hnone : Printed.number? printed = none)
    (hreading : table.reading? name = some (some (Native.raw printed).describe, true))
    (expression : String) : decode table ⟨name, expression, .int⟩ = .raw printed := by
  rw [decode_of_reading? hreading]
  show (Printed.number? printed).getD (.raw printed) = _
  rw [hnone]
  rfl

/-- Integers are decoded exactly. An integer printed in decimal or in base sixteen, whatever follows
it behind white space, gives the signed number of 64 bits that it is, else the unsigned number that
it is, else the whole printed value. What the decoded value is in words decodes to the value
again. -/
theorem decode_int_exact (hnumeral : Prints z numeral.toList) (htail : Text.Breaks tail.toList)
    (hreading : table.reading? name = some (some (numeral ++ tail), true)) (expression : String) :
    (-2 ^ 63 ≤ z → z < 2 ^ 63 →
        ∃ n : Int64, n.toInt = z ∧ decode table ⟨name, expression, .int⟩ = .int n) ∧
      (2 ^ 63 ≤ z → z < 2 ^ 64 →
        ∃ n : UInt64, (n.toNat : Int) = z ∧ decode table ⟨name, expression, .int⟩ = .uint n) ∧
      (z < -2 ^ 63 ∨ 2 ^ 64 ≤ z →
        decode table ⟨name, expression, .int⟩ = .raw (numeral ++ tail)) ∧
      ∀ (again : VariableTable) (name' expression' : String),
        again.reading? name' =
            some (some (decode table ⟨name, expression, .int⟩).describe, true) →
          decode again ⟨name', expression', .int⟩ = decode table ⟨name, expression, .int⟩ := by
  have hdecode := decode_int_of_prints hnumeral htail hreading expression
  have hnumber := Printed.number?_of_prints hnumeral String.toList_append htail
  rw [hdecode]
  refine ⟨fun hlow hhigh ↦ ?_, fun hlow hhigh ↦ ?_, fun hout ↦ ?_, fun again name' expression' ↦ ?_⟩
  · exact ⟨Int64.ofInt z, Int64.toInt_ofInt_of_le hlow hhigh, if_pos ⟨hlow, hhigh⟩⟩
  · refine ⟨UInt64.ofNat z.toNat, ?_, ?_⟩
    · rw [UInt64.toNat_ofNat_of_lt' (show z.toNat < 2 ^ 64 by omega)]
      omega
    · rw [if_neg (by omega), if_pos (by omega)]
  · rw [if_neg (by omega), if_neg (by omega)]
  · split_ifs with hsigned hunsigned
    · exact fun h ↦ decode_describe_int _ h expression'
    · refine fun h ↦ decode_describe_uint ?_ h expression'
      rw [UInt64.toNat_ofNat_of_lt' (show z.toNat < 2 ^ 64 by omega)]
      omega
    · rw [if_neg hsigned, if_neg hunsigned] at hnumber
      exact fun h ↦ decode_describe_raw hnumber h expression'

/-- The largest number of 64 bits, printed in base sixteen and in decimal. -/
def maximumTable : VariableTable :=
  let object (name value : String) : Variable :=
    ⟨name, "n", some "unsigned long", some value, 0, true, none, none⟩
  [object "var1" "0xFFFFFFFFFFFFFFFF <flags>", object "var2" "18446744073709551615"].foldl
    .insert .empty

theorem decode_int_exact_of_maximum :
    Prints (2 ^ 64 - 1) "0xFFFFFFFFFFFFFFFF".toList ∧ Text.Breaks " <flags>".toList ∧
      maximumTable.reading? "var1" = some (some ("0xFFFFFFFFFFFFFFFF" ++ " <flags>"), true) ∧
      decode maximumTable ⟨"var1", "n", .int⟩ = .uint (UInt64.ofNat (2 ^ 64 - 1)) ∧
      decode maximumTable ⟨"var2", "n", .int⟩ = decode maximumTable ⟨"var1", "n", .int⟩ := by
  have hprints : Prints (2 ^ 64 - 1) "0xFFFFFFFFFFFFFFFF".toList :=
    .hexadecimal (n := 2 ^ 64 - 1) 0 (by decide +kernel)
  have hbreaks : Text.Breaks " <flags>".toList := Text.breaks_cons Text.isWhitespace_space _
  have hreading : maximumTable.reading? "var1" =
      some (some ("0xFFFFFFFFFFFFFFFF" ++ " <flags>"), true) := by decide +kernel
  obtain ⟨-, hunsigned, -, hagain⟩ := decode_int_exact hprints hbreaks hreading "n"
  obtain ⟨n, hn, hdecode⟩ := hunsigned (by decide) (by decide)
  have hmaximum : (UInt64.ofNat (2 ^ 64 - 1)).toNat = 2 ^ 64 - 1 := by decide +kernel
  obtain rfl : n = UInt64.ofNat (2 ^ 64 - 1) := UInt64.toNat_inj.mp (by omega)
  refine ⟨hprints, hbreaks, hreading, hdecode, hagain maximumTable "var2" "n" ?_⟩
  rw [hdecode]
  decide +kernel

end Watch

end DebugLink
