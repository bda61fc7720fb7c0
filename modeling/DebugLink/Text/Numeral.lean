/-!
Reading whole numbers written in a base up to sixteen. A sign may lead, digits must follow, nothing
else may, and a number outside the bounds is not read at all.
-/

set_option autoImplicit false

namespace DebugLink.Numeral

/-- The value of a digit, letters of either case counting from ten. -/
def digit? (base : Nat) (c : Char) : Option Nat :=
  let value? :=
    if '0' ≤ c ∧ c ≤ '9' then some (c.toNat - '0'.toNat)
    else if 'a' ≤ c ∧ c ≤ 'f' then some (c.toNat - 'a'.toNat + 10)
    else if 'A' ≤ c ∧ c ≤ 'F' then some (c.toNat - 'A'.toNat + 10)
    else none
  value?.filter (· < base)

/-- Whether a character is a digit of the base. -/
def isDigit (base : Nat) (c : Char) : Bool :=
  (digit? base c).isSome

/-- The number that follows when more digits are read after a value. -/
def digitsFrom? (base : Nat) : Nat → List Char → Option Nat
  | value, [] => some value
  | value, c :: rest => do digitsFrom? base (value * base + (← digit? base c)) rest

/-- One or more digits. -/
def digits? (base : Nat) : List Char → Option Nat
  | [] => none
  | cs => digitsFrom? base 0 cs

/-- A number from 0 up to but not including `bound`, perhaps after a plus sign. -/
def unsigned? (base bound : Nat) (cs : List Char) : Option Nat :=
  let magnitude? :=
    match cs with
    | '+' :: rest => digits? base rest
    | _ => digits? base cs
  magnitude?.filter (· < bound)

/-- A number from `-bound` up to but not including `bound`, perhaps after a sign. -/
def signed? (base bound : Nat) (cs : List Char) : Option Int :=
  match cs with
  | '-' :: rest => ((digits? base rest).filter (· ≤ bound)).map fun n ↦ -(n : Int)
  | _ => (unsigned? base bound cs).map Int.ofNat

/-- A decimal number of 64 bits. -/
def word64? (s : String) : Option UInt64 :=
  (unsigned? 10 UInt64.size s.toList).map UInt64.ofNat

/-- A decimal number of 32 bits. -/
def word32? (s : String) : Option Nat :=
  unsigned? 10 UInt32.size s.toList

/-- The digits of a number in base sixteen, in lower case. -/
def hex (n : Nat) : String :=
  String.ofList (Nat.toDigits 16 n)

end DebugLink.Numeral
