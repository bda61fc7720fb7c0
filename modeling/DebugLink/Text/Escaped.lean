import DebugLink.Text.Glyph
import DebugLink.Text.Numeral

/-!
Texts and characters between quotes, for messages. What cannot be shown as it is is written as an
escape: the backslash and the enclosing quote with a backslash before them, tab, line feed, carriage
return and the zero character by a letter, and the rest by number.
-/

set_option autoImplicit false

namespace DebugLink.Text

/-- One character as it stands between the given quotes. -/
def escapeChar (quote c : Char) : List Char :=
  if c = quote then ['\\', c]
  else
    match c with
    | '\\' => ['\\', '\\']
    | '\n' => ['\\', 'n']
    | '\t' => ['\\', 't']
    | '\r' => ['\\', 'r']
    | '\x00' => ['\\', '0']
    | _ => if hasGlyph c then [c] else ['\\', 'u', '\x7b'] ++ Nat.toDigits 16 c.toNat ++ ['\x7d']

/-- A text between double quotes. -/
def quoted (s : String) : String :=
  String.ofList (['"'] ++ s.toList.flatMap (escapeChar '"') ++ ['"'])

/-- A character between single quotes. -/
def quotedChar (c : Char) : String :=
  String.ofList (['\''] ++ escapeChar '\'' c ++ ['\''])

end DebugLink.Text
