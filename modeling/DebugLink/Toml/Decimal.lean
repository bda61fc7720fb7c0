import DebugLink.Text.Numeral

/-!
Decimal numbers of any size, and which of them are too large for 64 bits: rounded to the nearest
floating-point number, with ties to the even one, they are infinite.
-/

set_option autoImplicit false

namespace DebugLink.Toml

/-- The number `coefficient * 10 ^ exponent`. -/
structure Decimal where
  coefficient : Nat
  exponent : Int
  deriving DecidableEq, Repr

namespace Decimal

/-- The number of a whole part and a fraction, as their digits, times a power of ten. -/
def ofDigits (whole fraction : List Char) (exponent : Int) : Decimal :=
  ⟨(Numeral.digits? 10 (whole ++ fraction)).getD 0, exponent - fraction.length⟩

/-- The least number that rounds to infinity: `2 ^ 1024 - 2 ^ 971` is the greatest finite one, and
this is half of the way on to `2 ^ 1024`. It has 309 digits. -/
def infinityBound : Nat :=
  Nat.pow 2 1024 - Nat.pow 2 970

/-- How many digits stand before the point, if that is not negative. -/
def width (d : Decimal) : Int :=
  (Nat.toDigits 10 d.coefficient).length + d.exponent

/-- Whether a number rounds to infinity. Numbers with more or fewer digits than the bound are told
by that alone, so that no power of ten is computed that is much longer than the number. -/
def roundsToInfinity (d : Decimal) : Bool :=
  d.coefficient ≠ 0 && (309 < d.width || (d.width = 309 &&
    infinityBound * Nat.pow 10 (-d.exponent).toNat ≤
      d.coefficient * Nat.pow 10 d.exponent.toNat))

end Decimal

end DebugLink.Toml
