import DebugLink.Proofs.Record.Lexemes

/-!
How bytes are spelled between quotes (`Spells`). The same bytes can be spelled in many ways, since
an escape may stand where none is needed and every byte may be given by its number. The lexer of
lines reads all of them back (`Symbol.scanQuoted_of_spells`), and reads nothing else
(`Symbol.exists_spells_of_scanQuoted`).
-/

set_option autoImplicit false

namespace DebugLink

open DebugLink.Symbol

/-- The characters, standing between quotes, spell the bytes. A character other than a quote or a
backslash stands for itself, a backslash and a character for what this escape names, and a backslash
and up to three octal digits for one byte. Less than three digits must not run into another one. -/
inductive Spells : List Char → List UInt8 → Prop
  | nil : Spells [] []
  | plain {c : Char} {chars : List Char} {bytes : List UInt8} :
    c ≠ '"' → c ≠ '\\' → Spells chars bytes →
      Spells (c :: chars) (String.utf8EncodeChar c ++ bytes)
  | escaped {c : Char} {chars : List Char} {bytes : List UInt8} :
    isOctal c = false → Spells chars bytes →
      Spells ('\\' :: c :: chars) (String.utf8EncodeChar (unescapeLetter c) ++ bytes)
  | octal {digits chars : List Char} {bytes : List UInt8} :
    digits ≠ [] → digits.length ≤ 3 → (∀ d ∈ digits, isOctal d = true) →
      (digits.length = 3 ∨ ∀ c, chars.head? = some c → isOctal c = false) → Spells chars bytes →
        Spells ('\\' :: (digits ++ chars)) (UInt8.ofNat (octalValue digits) :: bytes)

/-- The octal digits after a backslash end after the third, or where no other one follows. -/
theorem Symbol.octalRun_digits {digits tail : List Char} (hlength : digits.length ≤ 3)
    (hdigits : ∀ d ∈ digits, isOctal d = true)
    (hends : digits.length = 3 ∨ ∀ c, tail.head? = some c → isOctal c = false) :
    octalRun (digits ++ tail) = digits := by
  have hrun : digits.takeWhile isOctal = digits := List.takeWhile_eq_self_iff.mpr hdigits
  rw [octalRun, List.take_append, List.take_of_length_le hlength]
  rcases hends with hthree | hstops
  · rw [hthree, Nat.sub_self, List.take_zero, List.append_nil, hrun]
  · rw [Text.takeWhile_append_of_head, hrun]
    intro c hc
    refine hstops c ?_
    rw [List.head?_take] at hc
    split_ifs at hc
    exact hc

/-- What spells bytes is read as these bytes, and ends at its quote. -/
theorem Symbol.scanQuoted_of_spells {chars : List Char} {bytes : List UInt8}
    (h : Spells chars bytes) (rest : List Char) :
    scanQuoted (chars ++ '"' :: rest) = some (bytes, rest) := by
  induction h with
  | nil => exact scanQuoted_closing rest
  | plain hquote hbackslash _ ih =>
    rw [List.cons_append, scanQuoted_plain hquote hbackslash, ih]
    rfl
  | escaped hletter _ ih =>
    rw [List.cons_append, List.cons_append, scanQuoted_escaped hletter, ih]
    rfl
  | @octal digits chars _ hne hlength hdigits hends _ ih =>
    obtain ⟨d, others, rfl⟩ := List.exists_cons_of_ne_nil hne
    have hstops : (d :: others).length = 3 ∨
        ∀ c, (chars ++ '"' :: rest).head? = some c → isOctal c = false := by
      refine hends.imp_right fun hstops c hc ↦ ?_
      cases chars with
      | nil => rw [← Option.some.inj hc]; rfl
      | cons first more => exact hstops c hc
    have hrun := octalRun_digits hlength hdigits hstops
    rw [List.cons_append, List.append_assoc, List.cons_append,
      scanQuoted_octal (hdigits d List.mem_cons_self), ← List.cons_append, hrun, List.drop_left, ih]
    rfl

theorem Symbol.octalRun_append_drop (chars : List Char) :
    octalRun chars ++ chars.drop (octalRun chars).length = chars := by
  have hfront : octalRun chars <+: chars :=
    (List.takeWhile_prefix isOctal).trans (List.take_prefix 3 chars)
  exact List.prefix_iff_eq_append.mp hfront

/-- An octal number is spelled by the octal digits after a backslash, where what follows them goes
on to a closing quote. -/
theorem Symbol.spells_octalRun {c : Char} {left inside rest : List Char} {bytes : List UInt8}
    (hoctal : isOctal c = true) (hspells : Spells inside bytes)
    (hinside : (c :: left).drop (octalRun (c :: left)).length = inside ++ '"' :: rest) :
    Spells ('\\' :: (octalRun (c :: left) ++ inside))
      (UInt8.ofNat (octalValue (octalRun (c :: left))) :: bytes) := by
  have hne : octalRun (c :: left) ≠ [] := by simp [octalRun, hoctal]
  have hlength : (octalRun (c :: left)).length ≤ 3 :=
    (List.takeWhile_sublist _).length_le.trans (List.length_take_le 3 _)
  have hdigits : ∀ d ∈ octalRun (c :: left), isOctal d = true := fun d hd ↦
    List.mem_takeWhile_imp hd
  refine .octal hne hlength hdigits ?_ hspells
  refine (Text.length_run_or_stops isOctal 3 (c :: left)).imp_right fun hstops d hd ↦ hstops d ?_
  show ((c :: left).drop (octalRun (c :: left)).length).head? = some d
  have hfilled : inside ≠ [] := by
    rintro rfl
    cases hd
  rw [hinside, List.head?_append_of_ne_nil _ hfilled, hd]

/-- What is read up to a closing quote spells the bytes. -/
theorem Symbol.exists_spells_of_scanQuoted {chars rest : List Char} {bytes : List UInt8}
    (h : scanQuoted chars = some (bytes, rest)) :
    ∃ inside, chars = inside ++ '"' :: rest ∧ Spells inside bytes := by
  fun_induction scanQuoted chars generalizing bytes rest with
  | case1 => cases h
  | case2 left =>
    cases h
    exact ⟨[], rfl, .nil⟩
  | case3 => cases h
  | case4 c left hoctal ih =>
    obtain ⟨found, hfound, heq⟩ := Option.map_eq_some_iff.mp h
    cases heq
    obtain ⟨inside, hinside, hspells⟩ := ih hfound
    refine ⟨_, ?_, spells_octalRun hoctal hspells hinside⟩
    rw [List.cons_append, List.append_assoc, ← hinside, octalRun_append_drop]
  | case5 c left hoctal ih =>
    obtain ⟨found, hfound, heq⟩ := Option.map_eq_some_iff.mp h
    cases heq
    obtain ⟨inside, rfl, hspells⟩ := ih hfound
    exact ⟨'\\' :: c :: inside, rfl, .escaped (Bool.eq_false_iff.mpr hoctal) hspells⟩
  | case6 c left hquote hend hbackslash ih =>
    obtain ⟨found, hfound, heq⟩ := Option.map_eq_some_iff.mp h
    cases heq
    have hplain := ne_backslash hend hbackslash
    obtain ⟨inside, rfl, hspells⟩ := ih hfound
    exact ⟨c :: inside, rfl, .plain hquote hplain hspells⟩

/-- Whether characters are written so that each stands for itself, or is named by the letter after
a backslash. -/
def Escapes (escape : Char → List Char) : Prop :=
  ∀ c, escape c = [c] ∧ c ≠ '"' ∧ c ≠ '\\' ∨
    ∃ letter, escape c = ['\\', letter] ∧ isOctal letter = false ∧ unescapeLetter letter = c

theorem Escapes.spells {escape : Char → List Char} (h : Escapes escape) (chars : List Char) :
    Spells (chars.flatMap escape) (chars.flatMap String.utf8EncodeChar) := by
  induction chars with
  | nil => exact .nil
  | cons c others ih =>
    rw [List.flatMap_cons, List.flatMap_cons]
    rcases h c with ⟨hself, hquote, hbackslash⟩ | ⟨letter, hescaped, hletter, hnames⟩
    · rw [hself]
      exact .plain hquote hbackslash ih
    · rw [hescaped, ← hnames]
      exact .escaped hletter ih

end DebugLink
