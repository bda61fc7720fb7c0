import DebugLink.Record.Lexeme
import DebugLink.Text.Numeral
import DebugLink.Text.Whitespace
import DebugLink.Watch.Native

/-!
Reading values as the debugger prints them: numbers, characters, quoted strings and pointers, each
perhaps followed by something else.
-/

set_option autoImplicit false

namespace DebugLink.Printed

/-- The digits of a number and its base, from the first word of a printed value. -/
def numeral? (value : String) : Option (Nat × List Char) :=
  (Text.nextWord? value.toList).map fun (word, _) ↦
    match Text.dropBeginning? ['0', 'x'] word with
    | some digits => (16, digits)
    | none => (10, word)

/-- The signed number at the front of a printed value. -/
def int? (value : String) : Option Int64 := do
  let (base, digits) ← numeral? value
  return Int64.ofInt (← Numeral.signed? base (Int64.size / 2) digits)

/-- The unsigned number at the front of a printed value. -/
def uint? (value : String) : Option UInt64 := do
  let (base, digits) ← numeral? value
  return UInt64.ofNat (← Numeral.unsigned? base UInt64.size digits)

/-- The character of a number, if there is one. -/
def charOf? (code : Int) : Option Char :=
  if 0 ≤ code ∧ code.toNat.isValidChar then some (Char.ofNat code.toNat) else none

/-- The character at the front of a printed value. Bytes beyond the first half are printed as
negative numbers. -/
def char? (value : String) : Option Char := do
  let code := (← int? value).toInt
  charOf? (if code < 0 then code + 256 else code)

/-- The bytes that text between quotes stands for, its escapes undone: letter escapes, one to three
octal digits, and any other character for itself. -/
def unescape : List Char → List UInt8
  | [] => []
  | '\\' :: [] => String.utf8EncodeChar '\\'
  | '\\' :: c :: rest =>
    if Numeral.isDigit 8 c then
      let digits := c :: (rest.take 2).takeWhile (Numeral.isDigit 8)
      UInt8.ofNat (Symbol.octalValue digits) :: unescape (rest.drop (digits.length - 1))
    else String.utf8EncodeChar (Symbol.unescapeLetter c) ++ unescape rest
  | c :: rest => String.utf8EncodeChar c ++ unescape rest
termination_by cs => cs.length

/-- The text between the first and the last double quote, its escapes undone. -/
def quoted? (value : String) : Option String :=
  match value.toList.dropWhile (· ≠ '"') with
  | [] => none
  | _ :: rest =>
    match rest.reverse.dropWhile (· ≠ '"') with
    | [] => none
    | _ :: inside => some (Utf8.toText (unescape inside.reverse))

/-- The digits of the first number in base sixteen, if any. -/
def addressDigits? : List Char → Option (List Char)
  | '0' :: 'x' :: rest =>
    match rest.takeWhile (Numeral.isDigit 16) with
    | [] => addressDigits? ('x' :: rest)
    | digits => some digits
  | _ :: rest => addressDigits? rest
  | [] => none

/-- The first address in a printed value. -/
def address? (value : String) : Option Address := do
  let digits ← addressDigits? value.toList
  return UInt64.ofNat (← Numeral.unsigned? 16 UInt64.size digits)

/-- The type in parentheses at the front of a printed pointer, without the markers at its end. -/
def castType? (value : String) : Option String :=
  match Text.trimStart value.toList with
  | '(' :: rest =>
    match rest.dropWhile (· ≠ ')') with
    | [] => none
    | _ =>
      let inside := Text.trim (rest.takeWhile (· ≠ ')'))
      some (String.ofList (Text.trimEnd (Text.dropEndWhile (· = '*') inside)))
  | _ => none

/-- A printed pointer: its address, and what it points to as far as the value says so. -/
def pointer? (value fallback : String) : Option Native :=
  (address? value).map fun address ↦ .pointer address ((castType? value).getD fallback)

end DebugLink.Printed
