/-!
Reading bytes as UTF-8 when they need not be valid. Each longest stretch of bytes that begins a
sequence but does not complete one, and each byte that cannot begin one, is replaced by U+FFFD.
-/

set_option autoImplicit false

namespace DebugLink.Utf8

/-- The character that stands for bytes that are no UTF-8. -/
def replacement : Char := '\ufffd'

/-- What the first byte of a sequence says: how many bytes the sequence has, and between which
bounds the second one lies. Overlong forms, surrogates and numbers beyond the last character are
ruled out by those bounds. -/
def leading? (first : UInt8) : Option (Nat × UInt8 × UInt8) :=
  if 0xc2 ≤ first ∧ first ≤ 0xdf then some (2, 0x80, 0xbf)
  else if first = 0xe0 then some (3, 0xa0, 0xbf)
  else if first = 0xed then some (3, 0x80, 0x9f)
  else if 0xe1 ≤ first ∧ first ≤ 0xef then some (3, 0x80, 0xbf)
  else if first = 0xf0 then some (4, 0x90, 0xbf)
  else if 0xf1 ≤ first ∧ first ≤ 0xf3 then some (4, 0x80, 0xbf)
  else if first = 0xf4 then some (4, 0x80, 0x8f)
  else none

/-- Whether a byte continues a sequence. -/
def isContinuation (b : UInt8) : Bool :=
  0x80 ≤ b && b ≤ 0xbf

/-- The payload of a continuation byte. -/
def payload (b : UInt8) : Nat :=
  b.toNat % 64

/-- The first character of bytes that begin with `first`, and how many of the bytes after it belong
to that character or are replaced together with it. -/
def decodeFirst (first : UInt8) (rest : List UInt8) : Char × Nat :=
  if first < 0x80 then (Char.ofNat first.toNat, 0)
  else
    match leading? first with
    | none => (replacement, 0)
    | some (length, low, high) =>
      match rest with
      | [] => (replacement, 0)
      | second :: rest =>
        if second < low ∨ high < second then (replacement, 0)
        else if length = 2 then (Char.ofNat (first.toNat % 32 * 64 + payload second), 1)
        else
          match rest with
          | [] => (replacement, 1)
          | third :: rest =>
            if !isContinuation third then (replacement, 1)
            else if length = 3 then
              (Char.ofNat (first.toNat % 16 * 4096 + payload second * 64 + payload third), 2)
            else
              match rest with
              | [] => (replacement, 2)
              | fourth :: _ =>
                if !isContinuation fourth then (replacement, 2)
                else
                  (Char.ofNat (first.toNat % 8 * 262144 + payload second * 4096 +
                    payload third * 64 + payload fourth), 3)

/-- The characters that bytes stand for, with replacements where they stand for none. -/
def decodeLossy : List UInt8 → List Char
  | [] => []
  | first :: rest =>
    (decodeFirst first rest).1 :: decodeLossy (rest.drop (decodeFirst first rest).2)
termination_by bytes => bytes.length
decreasing_by
  simp only [List.length_drop, List.length_cons]
  omega

/-- The text that bytes stand for, with replacements where they stand for none. -/
def toText (bytes : List UInt8) : String :=
  String.ofList (decodeLossy bytes)

end DebugLink.Utf8
