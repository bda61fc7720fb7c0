import DebugLink.Proofs.Text.Numeral
import DebugLink.Proofs.Text.Words
import DebugLink.Session.Watching

/-!
Numbers as the values of objects. A decimal number is read if it fits into 64 bits with its sign,
and nothing is read otherwise (`Printed.int?_toString`). The number that the object for the length
of a vector holds (`Variable.count?`) tells both how many elements a watch asks for
(`Session.elementCount_eq`) and how many it decodes (`VariableTable.countOf_eq`). Where there is no
such number, or not a positive one, there are none.
-/

set_option autoImplicit false

namespace DebugLink

/-! ### Decimal numbers -/

namespace Numeral

/-- The base of a word and what stands behind the mark for it. -/
def based (word : List Char) : Nat × List Char :=
  match Text.dropBeginning? ['0', 'x'] word with
  | some digits => (16, digits)
  | none => (10, word)

theorem based_of_plain {word : List Char} (h : ∀ c ∈ word, c ≠ 'x') : based word = (10, word) := by
  have hplain : Text.dropBeginning? ['0', 'x'] word = none := by
    cases word with
    | nil => rfl
    | cons c rest =>
      cases rest with
      | nil => by_cases hc : '0' = c <;> simp [Text.dropBeginning?, hc]
      | cons d others =>
        have hd : 'x' ≠ d := fun heq ↦ h d (by simp) heq.symm
        by_cases hc : '0' = c <;> simp [Text.dropBeginning?, hc, hd]
  unfold based
  rw [hplain]

theorem word_of_isDigit {c : Char} (h : c.isDigit = true) : isWhitespace c = false ∧ c ≠ 'x' := by
  have hall : ∀ n < 128, (Char.ofNat n).isDigit = true →
      isWhitespace (Char.ofNat n) = false ∧ Char.ofNat n ≠ 'x' := by
    decide +kernel
  have hascii := Text.ascii_of_isAlphanum (Bool.or_eq_true_iff.mpr (.inr h))
  exact Text.of_ascii (P := fun c ↦ c.isDigit = true → isWhitespace c = false ∧ c ≠ 'x') hall
    hascii h

/-- A decimal number is one word and has no mark of another base. -/
theorem word_toString (z : Int) :
    (toString z).toList ≠ [] ∧ ∀ c ∈ (toString z).toList, isWhitespace c = false ∧ c ≠ 'x' := by
  cases z with
  | ofNat n =>
    exact ⟨toString_ne_nil n, fun c hc ↦ word_of_isDigit (isDigit_of_mem_toString (n := n) hc)⟩
  | negSucc n =>
    rw [toList_toString_negSucc]
    exact ⟨List.cons_ne_nil _ _, List.forall_mem_cons.mpr ⟨by decide, fun c hc ↦
      word_of_isDigit (isDigit_of_mem_toString hc)⟩⟩

theorem solid_toString (z : Int) : Text.Solid (toString z).toList :=
  ⟨(word_toString z).1, fun c hc ↦ ((word_toString z).2 c hc).1⟩

theorem based_toString (z : Int) : based (toString z).toList = (10, (toString z).toList) :=
  based_of_plain fun c hc ↦ ((word_toString z).2 c hc).2

end Numeral

namespace Printed

/-- The word at the front of a printed value is what is read. -/
theorem numeral?_append {word tail : List Char} {value : String}
    (hvalue : value.toList = word ++ tail) (hword : Text.Solid word) (htail : Text.Breaks tail) :
    numeral? value = some (Numeral.based word) := by
  have hnone : ∀ c ∈ ([] : List Char), isWhitespace c = true := by simp
  have hnext : Text.nextWord? (word ++ tail) = some (word, tail) :=
    Text.nextWord?_append hnone hword htail
  rw [numeral?, hvalue, hnext]
  rfl

/-- A decimal number is read if it fits, and nothing is read if it does not. -/
theorem int?_toString (z : Int) :
    int? (toString z) =
      if Int64.minValue.toInt ≤ z ∧ z ≤ Int64.maxValue.toInt then some (Int64.ofInt z)
      else none := by
  have hmin : -((Int64.size / 2 : Nat) : Int) = Int64.minValue.toInt := by decide
  have hmax : z < ((Int64.size / 2 : Nat) : Int) ↔ z ≤ Int64.maxValue.toInt := by
    have hstep : ((Int64.size / 2 : Nat) : Int) = Int64.maxValue.toInt + 1 := by decide
    rw [hstep, Int.lt_add_one_iff]
  unfold int?
  rw [numeral?_append (List.append_nil _).symm (Numeral.solid_toString z) Text.breaks_nil,
    Numeral.based_toString]
  dsimp only [bind, Option.bind]
  simp only [Numeral.signed?_toString, hmin, hmax]
  split_ifs <;> rfl

end Printed

/-! ### Counts -/

namespace Variable

/-- The number that an object holds. -/
def count? (v : Variable) : Option Int :=
  (v.value >>= Printed.int?).map Int64.toInt

/-- Whether an object holds no positive number. -/
def CountsNothing (v : Variable) : Prop :=
  ∀ n, v.count? = some n → n ≤ 0

variable {v : Variable}

theorem count?_of_decimal {z : Int} (h : v.value = some (toString z)) :
    v.count? =
      if Int64.minValue.toInt ≤ z ∧ z ≤ Int64.maxValue.toInt then some z else none := by
  unfold count?
  rw [h]
  show (Printed.int? (toString z)).map Int64.toInt = _
  rw [Printed.int?_toString]
  split_ifs with hfits
  · rw [Option.map_some, Int64.toInt_ofInt_of_le hfits.1 (Int.lt_add_one_of_le hfits.2)]
  · rfl

theorem count?_le {n : Int} (h : v.count? = some n) : n ≤ Int64.maxValue.toInt := by
  obtain ⟨k, -, rfl⟩ := Option.map_eq_some_iff.mp h
  exact Int.le_of_lt_add_one k.toInt_lt

theorem countsNothing_of_decimal {z : Int} (h : v.value = some (toString z))
    (hz : z ≤ 0 ∨ Int64.maxValue.toInt < z) : v.CountsNothing := by
  intro n hn
  rw [count?_of_decimal h] at hn
  split_ifs at hn with hfits
  obtain rfl := Option.some.inj hn
  exact hz.resolve_right (Int.not_lt.mpr hfits.2)

theorem CountsNothing.toNat_eq (h : v.CountsNothing) : (v.count?.getD 0).toNat = 0 := by
  cases hcount : v.count? with
  | none => rfl
  | some n => exact Int.toNat_of_nonpos (h n hcount)

end Variable

theorem VariableTable.countOf_eq {table : VariableTable} {v : Variable}
    (h : table.get? v.name = some v) : table.countOf v.name = (v.count?.getD 0).toNat := by
  unfold countOf value? Variable.count?
  rw [h]
  simp only [Option.bind_eq_bind, Option.bind_some]
  cases v.value.bind Printed.int? <;> rfl

theorem Session.elementCount_eq (limit : Nat) (v : Variable) :
    elementCount limit v.value = min (v.count?.getD 0).toNat limit := by
  unfold elementCount Variable.count?
  cases v.value >>= Printed.int? with
  | none => exact (Nat.zero_min limit).symm
  | some n => rfl

end DebugLink
