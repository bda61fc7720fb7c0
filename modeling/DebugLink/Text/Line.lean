import DebugLink.Text.Utf8

/-!
Bytes that arrive in pieces, and the lines in them. A line ends with a line feed, before which a
carriage return may stand; the last line may lack its end.
-/

set_option autoImplicit false

namespace DebugLink.Line

/-- The byte that ends a line. -/
def feed : UInt8 := 0x0a

/-- The byte that may stand before the end of a line. -/
def carriageReturn : UInt8 := 0x0d

/-- The lines that have come to their end, without it, and what follows the last of them. -/
def complete : List UInt8 → List (List UInt8) × List UInt8
  | [] => ([], [])
  | b :: rest =>
    let (lines, remainder) := complete rest
    if b = feed then ([] :: lines, remainder)
    else
      match lines with
      | [] => ([], b :: remainder)
      | line :: lines => ((b :: line) :: lines, remainder)

/-- The text of a line; one carriage return at its end is dropped. -/
def text (line : List UInt8) : String :=
  Utf8.toText (if line.getLast? = some carriageReturn then line.dropLast else line)

/-- The line that remains when nothing more arrives, if there is one. -/
def last? (remainder : List UInt8) : Option String :=
  if remainder.isEmpty then none else some (text remainder)

/-- All lines of bytes to which nothing is added. -/
def all (bytes : List UInt8) : List String :=
  let (lines, remainder) := complete bytes
  lines.map text ++ (last? remainder).toList

/-- The bytes of a text as a line. -/
def ofText (s : String) : List UInt8 :=
  s.toUTF8.toList ++ [feed]

end DebugLink.Line
