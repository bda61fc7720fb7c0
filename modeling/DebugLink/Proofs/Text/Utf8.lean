import DebugLink.Text.Utf8
import Mathlib.Data.List.Basic

/-!
Reading UTF-8 back. The bytes of characters are decoded to the same characters, whatever bytes
follow (`decodeLossy_utf8EncodeChar_append`), so no text is changed by writing its bytes and reading
them.
-/

set_option autoImplicit false

namespace DebugLink.Utf8

/-! ### First bytes -/

theorem leading?_two {first : UInt8} (hlow : 0xc2 ≤ first.toNat) (hhigh : first.toNat ≤ 0xdf) :
    leading? first = some (2, 0x80, 0xbf) := by
  rw [leading?, if_pos]
  simp only [UInt8.le_iff_toNat_le]
  exact ⟨hlow, hhigh⟩

theorem leading?_three {first : UInt8} (hlow : 0xe0 ≤ first.toNat) (hhigh : first.toNat ≤ 0xef) :
    leading? first = some (3, if first.toNat = 0xe0 then 0xa0 else 0x80,
      if first.toNat = 0xed then 0x9f else 0xbf) := by
  unfold leading?
  simp only [UInt8.le_iff_toNat_le, ← UInt8.toNat_inj]
  split_ifs <;> simp_all <;> omega

theorem leading?_four {first : UInt8} (hlow : 0xf0 ≤ first.toNat) (hhigh : first.toNat ≤ 0xf4) :
    leading? first = some (4, if first.toNat = 0xf0 then 0x90 else 0x80,
      if first.toNat = 0xf4 then 0x8f else 0xbf) := by
  unfold leading?
  simp only [UInt8.le_iff_toNat_le, ← UInt8.toNat_inj]
  split_ifs <;> simp_all <;> omega

/-! ### Sequences of each length -/

/-- The byte that continues a sequence with six more bits. -/
theorem toNat_continuation (bits : Nat) :
    (UInt8.ofNat (bits % 64 + 128)).toNat = bits % 64 + 128 :=
  UInt8.toNat_ofNat_of_lt' (show _ < 256 by omega)

theorem isContinuation_ofNat (bits : Nat) :
    isContinuation (UInt8.ofNat (bits % 64 + 128)) = true := by
  rw [isContinuation]
  simp only [UInt8.le_iff_toNat_le, toNat_continuation, Bool.and_eq_true, decide_eq_true_eq]
  show 128 ≤ bits % 64 + 128 ∧ bits % 64 + 128 ≤ 191
  omega

theorem payload_ofNat (bits : Nat) : payload (UInt8.ofNat (bits % 64 + 128)) = bits % 64 := by
  rw [payload, toNat_continuation]
  omega

/-- A byte from 0x80 on is no character by itself. -/
theorem not_ofNat_lt {n : Nat} (hlow : 0x80 ≤ n) (hhigh : n ≤ 0xff) : ¬ UInt8.ofNat n < 0x80 := by
  rw [UInt8.lt_iff_toNat_lt, UInt8.toNat_ofNat_of_lt' (Nat.lt_succ_of_le hhigh)]
  exact Nat.not_lt.mpr hlow

theorem decodeFirst_one {v : Nat} (h : v ≤ 0x7f) (rest : List UInt8) :
    decodeFirst (UInt8.ofNat v) rest = (Char.ofNat v, 0) := by
  have hv : (UInt8.ofNat v).toNat = v := UInt8.toNat_ofNat_of_lt' (show _ < 256 by omega)
  have hlow : UInt8.ofNat v < 0x80 := by
    rw [UInt8.lt_iff_toNat_lt, hv]
    show v < 128
    omega
  rw [decodeFirst, if_pos hlow, hv]

theorem decodeFirst_two {v : Nat} (hlow : 0x80 ≤ v) (hhigh : v ≤ 0x7ff) (rest : List UInt8) :
    decodeFirst (UInt8.ofNat (v / 64 % 32 + 192)) (UInt8.ofNat (v % 64 + 128) :: rest) =
      (Char.ofNat v, 1) := by
  have hfirst : (UInt8.ofNat (v / 64 % 32 + 192)).toNat = v / 64 % 32 + 192 :=
    UInt8.toNat_ofNat_of_lt' (show _ < 256 by omega)
  have hlong : ¬ UInt8.ofNat (v / 64 % 32 + 192) < 0x80 :=
    not_ofNat_lt (by omega) (by omega)
  have hleading : leading? (UInt8.ofNat (v / 64 % 32 + 192)) = _ :=
    leading?_two (by omega) (by omega)
  have hsecond : ¬ (UInt8.ofNat (v % 64 + 128) < 0x80 ∨ 0xbf < UInt8.ofNat (v % 64 + 128)) := by
    simp only [UInt8.lt_iff_toNat_lt, toNat_continuation]
    show ¬ (v % 64 + 128 < 128 ∨ 191 < v % 64 + 128)
    omega
  have hvalue : (v / 64 % 32 + 192) % 32 * 64 + v % 64 = v := by omega
  simp only [decodeFirst, if_neg hlong, hleading, if_neg hsecond, ↓reduceIte, hfirst,
    payload_ofNat, hvalue]

theorem decodeFirst_three {v : Nat} (hlow : 0x800 ≤ v) (hhigh : v ≤ 0xffff)
    (hvalid : v < 0xd800 ∨ 0xdfff < v) (rest : List UInt8) :
    decodeFirst (UInt8.ofNat (v / 4096 % 16 + 224))
        (UInt8.ofNat (v / 64 % 64 + 128) :: UInt8.ofNat (v % 64 + 128) :: rest) =
      (Char.ofNat v, 2) := by
  have hfirst : (UInt8.ofNat (v / 4096 % 16 + 224)).toNat = v / 4096 % 16 + 224 :=
    UInt8.toNat_ofNat_of_lt' (show _ < 256 by omega)
  have hlong : ¬ UInt8.ofNat (v / 4096 % 16 + 224) < 0x80 :=
    not_ofNat_lt (by omega) (by omega)
  have hleading : leading? (UInt8.ofNat (v / 4096 % 16 + 224)) = _ :=
    leading?_three (by omega) (by omega)
  rw [hfirst] at hleading
  -- The bounds on the second byte rule out overlong forms and surrogates.
  have hsecond : ¬ (UInt8.ofNat (v / 64 % 64 + 128) <
        (if v / 4096 % 16 + 224 = 0xe0 then 0xa0 else 0x80) ∨
      (if v / 4096 % 16 + 224 = 0xed then 0x9f else 0xbf) < UInt8.ofNat (v / 64 % 64 + 128)) := by
    simp only [UInt8.lt_iff_toNat_lt, toNat_continuation, apply_ite UInt8.toNat]
    show ¬ (v / 64 % 64 + 128 < (if v / 4096 % 16 + 224 = 224 then 160 else 128) ∨
      (if v / 4096 % 16 + 224 = 237 then 159 else 191) < v / 64 % 64 + 128)
    split_ifs <;> omega
  have hvalue : (v / 4096 % 16 + 224) % 16 * 4096 + v / 64 % 64 * 64 + v % 64 = v := by omega
  simp only [decodeFirst, if_neg hlong, hleading, if_neg hsecond, isContinuation_ofNat, hfirst,
    payload_ofNat, hvalue]
  simp

theorem decodeFirst_four {v : Nat} (hlow : 0x10000 ≤ v) (hhigh : v < 0x110000)
    (rest : List UInt8) :
    decodeFirst (UInt8.ofNat (v / 262144 % 8 + 240))
        (UInt8.ofNat (v / 4096 % 64 + 128) :: UInt8.ofNat (v / 64 % 64 + 128) ::
          UInt8.ofNat (v % 64 + 128) :: rest) =
      (Char.ofNat v, 3) := by
  have hfirst : (UInt8.ofNat (v / 262144 % 8 + 240)).toNat = v / 262144 % 8 + 240 :=
    UInt8.toNat_ofNat_of_lt' (show _ < 256 by omega)
  have hlong : ¬ UInt8.ofNat (v / 262144 % 8 + 240) < 0x80 :=
    not_ofNat_lt (by omega) (by omega)
  have hleading : leading? (UInt8.ofNat (v / 262144 % 8 + 240)) = _ :=
    leading?_four (by omega) (by omega)
  rw [hfirst] at hleading
  have hsecond : ¬ (UInt8.ofNat (v / 4096 % 64 + 128) <
        (if v / 262144 % 8 + 240 = 0xf0 then 0x90 else 0x80) ∨
      (if v / 262144 % 8 + 240 = 0xf4 then 0x8f else 0xbf) <
        UInt8.ofNat (v / 4096 % 64 + 128)) := by
    simp only [UInt8.lt_iff_toNat_lt, toNat_continuation, apply_ite UInt8.toNat]
    show ¬ (v / 4096 % 64 + 128 < (if v / 262144 % 8 + 240 = 240 then 144 else 128) ∨
      (if v / 262144 % 8 + 240 = 244 then 143 else 191) < v / 4096 % 64 + 128)
    split_ifs <;> omega
  have hvalue : (v / 262144 % 8 + 240) % 8 * 262144 + v / 4096 % 64 * 4096 + v / 64 % 64 * 64 +
      v % 64 = v := by omega
  simp only [decodeFirst, if_neg hlong, hleading, if_neg hsecond, isContinuation_ofNat, hfirst,
    payload_ofNat, hvalue]
  simp

/-! ### Texts -/

/-- The bytes of a character are decoded to it, whatever follows. -/
theorem decodeLossy_utf8EncodeChar_append (c : Char) (rest : List UInt8) :
    decodeLossy (String.utf8EncodeChar c ++ rest) = c :: decodeLossy rest := by
  have hchar : Char.ofNat c.val.toNat = c := Char.ofNat_toNat c
  have hvalid : c.val.toNat < 0xd800 ∨ 0xdfff < c.val.toNat ∧ c.val.toNat < 0x110000 := c.valid
  rw [String.utf8EncodeChar]
  split_ifs with h1 h2 h3
  · rw [List.singleton_append, decodeLossy, decodeFirst_one h1, hchar]
    rfl
  · have hlow : 0x80 ≤ c.val.toNat := Nat.lt_of_not_le h1
    rw [List.cons_append, List.singleton_append, decodeLossy, decodeFirst_two hlow h2, hchar]
    rfl
  · have hlow : 0x800 ≤ c.val.toNat := Nat.lt_of_not_le h2
    rw [List.cons_append, List.cons_append, List.singleton_append, decodeLossy,
      decodeFirst_three hlow h3 (hvalid.imp id And.left), hchar]
    rfl
  · have hlow : 0x10000 ≤ c.val.toNat := Nat.lt_of_not_le h3
    rw [List.cons_append, List.cons_append, List.cons_append, List.singleton_append, decodeLossy,
      decodeFirst_four hlow (by omega), hchar]
    rfl

/-- The bytes of characters are decoded to them. -/
theorem decodeLossy_flatMap (chars : List Char) :
    decodeLossy (chars.flatMap String.utf8EncodeChar) = chars := by
  induction chars with
  | nil => rw [List.flatMap_nil, decodeLossy]
  | cons c rest ih => rw [List.flatMap_cons, decodeLossy_utf8EncodeChar_append, ih]

/-- The bytes of a text are read as the text. -/
theorem toText_flatMap (s : String) : toText (s.toList.flatMap String.utf8EncodeChar) = s := by
  rw [toText, decodeLossy_flatMap, String.ofList_toList]

end DebugLink.Utf8
