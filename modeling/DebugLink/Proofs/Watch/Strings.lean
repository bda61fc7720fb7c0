import DebugLink.Proofs.Record.RoundTrip
import DebugLink.Proofs.Variable.Children
import DebugLink.Watch.Decode

/-!
Strings of the target on their way to a watch. The debugger escapes a string when it prints it as a
value, and escapes the value again when it prints the record that reports it. The reader of lines
undoes the outer escapes and the decoder of watches the inner ones, whichever way the bytes were
spelled in either of them (`Watch.decoded_of_spelled`).
-/

set_option autoImplicit false

namespace DebugLink

/-! ### Printed strings -/

namespace Printed

open DebugLink.Symbol

variable {chars front inside : List Char} {bytes : List UInt8}

theorem isOctal_eq_isDigit (c : Char) : isOctal c = Numeral.isDigit 8 c := by
  by_cases hascii : c.toNat < 128
  · have hall : ∀ n < 128, isOctal (Char.ofNat n) = Numeral.isDigit 8 (Char.ofNat n) := by
      decide +kernel
    exact Text.of_ascii (P := fun c ↦ isOctal c = Numeral.isDigit 8 c) hall hascii
  · have hoctal : isOctal c = false :=
      Bool.eq_false_iff.mpr fun hoctal ↦ hascii (ascii_of_isOctal hoctal)
    have hdigit : Numeral.digit? 8 c = none := by
      have hbounds : ∀ {last : Char}, last.toNat < 128 → ¬c ≤ last :=
        fun hlast hle ↦ hascii (Nat.lt_of_le_of_lt hle hlast)
      rw [Numeral.digit?, if_neg fun h ↦ hbounds (by decide) h.2,
        if_neg fun h ↦ hbounds (by decide) h.2, if_neg fun h ↦ hbounds (by decide) h.2]
      rfl
    rw [hoctal, Numeral.isDigit, hdigit]
    rfl

theorem unescape_plain {c : Char} (hbackslash : c ≠ '\\') (rest : List Char) :
    unescape (c :: rest) = String.utf8EncodeChar c ++ unescape rest := by
  rw [unescape]
  · exact fun h _ ↦ hbackslash h
  · exact fun _ _ h _ ↦ hbackslash h

theorem unescape_escaped {c : Char} (h : isOctal c = false) (rest : List Char) :
    unescape ('\\' :: c :: rest) =
      String.utf8EncodeChar (unescapeLetter c) ++ unescape rest := by
  rw [isOctal_eq_isDigit] at h
  rw [unescape, if_neg (Bool.eq_false_iff.mp h)]

theorem unescape_octal {c : Char} (h : isOctal c = true) (rest : List Char) :
    unescape ('\\' :: c :: rest) =
      UInt8.ofNat (octalValue (octalRun (c :: rest))) ::
        unescape ((c :: rest).drop (octalRun (c :: rest)).length) := by
  have hclass : Numeral.isDigit 8 = isOctal := funext fun d ↦ (isOctal_eq_isDigit d).symm
  have hrun : octalRun (c :: rest) = c :: (rest.take 2).takeWhile isOctal := by
    simp [octalRun, h]
  rw [unescape, hclass, if_pos h, hrun]
  rfl

/-- What spells bytes stands for them also in a printed value. -/
theorem unescape_of_spells (h : Spells chars bytes) : unescape chars = bytes := by
  induction h with
  | nil => rw [unescape]
  | plain _ hbackslash _ ih => rw [unescape_plain hbackslash, ih]
  | escaped hletter _ ih => rw [unescape_escaped hletter, ih]
  | @octal digits chars _ hne hlength hdigits hends _ ih =>
    obtain ⟨d, others, rfl⟩ := List.exists_cons_of_ne_nil hne
    have hrun := octalRun_digits hlength hdigits hends
    rw [List.cons_append, unescape_octal (hdigits d List.mem_cons_self), ← List.cons_append, hrun,
      List.drop_left, ih]

/-- What stands between the first and the last quote of a value is its string. -/
theorem quoted?_of_spells (hfront : '"' ∉ front) (h : Spells inside bytes) :
    quoted? (String.ofList (front ++ '"' :: (inside ++ ['"']))) = some (Utf8.toText bytes) := by
  have hskip : ∀ c ∈ front, decide (c ≠ '"') = true :=
    fun c hc ↦ decide_eq_true fun heq ↦ hfront (heq ▸ hc)
  have hfirst : (front ++ '"' :: (inside ++ ['"'])).dropWhile (· ≠ '"') =
      '"' :: (inside ++ ['"']) := by
    rw [List.dropWhile_append_of_pos hskip, List.dropWhile_cons_of_neg (by decide)]
  have hlast : (inside ++ ['"']).reverse.dropWhile (· ≠ '"') = '"' :: inside.reverse := by
    rw [List.reverse_concat, List.dropWhile_cons_of_neg (by decide)]
  unfold quoted?
  rw [String.toList_ofList, hfirst]
  dsimp only
  rw [hlast]
  dsimp only
  rw [List.reverse_reverse, unescape_of_spells h]

/-- A string as it is printed: its address, and its characters between quotes. -/
def string (address : Address) (inside : String) : String :=
  Address.text address ++ " \"" ++ inside ++ "\""

theorem quote_notMem_address (address : Address) : '"' ∉ (Address.text address).toList := by
  rw [Address.text, String.toList_append, List.mem_append]
  rintro (hfront | hdigits)
  · exact absurd hfront (by decide)
  · rw [Numeral.hex, String.toList_ofList] at hdigits
    obtain ⟨d, hd, hquote⟩ := Numeral.mem_toDigits (show 1 < 16 by decide) hdigits
    have hall : ∀ d < 16, '"' ≠ Nat.digitChar d := by decide
    exact hall d hd hquote

theorem quoted?_string (address : Address) {inside s : String}
    (h : Spells inside.toList (s.toList.flatMap String.utf8EncodeChar)) :
    quoted? (string address inside) = some s := by
  -- The address has no quote, and the last quote is the closing one whatever stands before it.
  have hfront : '"' ∉ (Address.text address).toList ++ [' '] := by
    simp [quote_notMem_address]
  have hprinted : string address inside = String.ofList
      ((Address.text address).toList ++ [' '] ++ '"' :: (inside.toList ++ ['"'])) := by
    apply String.toList_injective
    simp [string]
  rw [hprinted, quoted?_of_spells hfront h, Utf8.toText_flatMap]

end Printed

/-! ### Objects that hold strings -/

namespace VariableTable

variable {table : VariableTable} {name s : String} {v : Variable}

/-- Whether an object reads as a string: for a watch on it, and for a watch on a string that has its
characters there. -/
def ReadsAs (table : VariableTable) (name s : String) : Prop :=
  (∀ expression, (Watch.mk name expression .cString).decode table = .text s) ∧
  ∀ var expression owner, table.get? var = some owner → owner.inScope = true →
    (Watch.mk var expression (.str name)).decode table = .text s

theorem readsAs_of_get? {address : Address} {inside : String}
    (hspells : Spells inside.toList (s.toList.flatMap String.utf8EncodeChar))
    (hget : table.get? name = some v) (hscope : v.inScope = true)
    (hvalue : v.value = some (Printed.string address inside)) : table.ReadsAs name s := by
  have hchars : Native.ofChars v.value = .text s := by
    rw [hvalue, Native.ofChars, Native.read, Printed.quoted?_string address hspells]
    rfl
  have hstored : table.value? name = v.value := by
    rw [value?, hget]
    rfl
  refine ⟨fun expression ↦ ?_, fun var expression owner howner hin ↦ ?_⟩
  · rw [Watch.decode, hget]
    dsimp only
    rw [if_pos hscope, Watch.decodeWith, hchars]
  · rw [Watch.decode, howner]
    dsimp only
    rw [if_pos hin, Watch.decodeWith, hstored, hchars]

theorem value_changed {change : Fields} {value : String}
    (h : change.text? "value" = some value) : (changed v change).1.value = some value := by
  show ((change.text? "value").filter _ <|> v.value) = some value
  rw [h, Option.filter_some]
  by_cases hsame : v.value = some value <;> simp [hsame]

theorem inScope_changed {change : Fields} (h : change.text? "in_scope" = some "true" ∨
    change.text? "in_scope" = none ∧ v.inScope = true) : (changed v change).1.inScope = true := by
  show (((change.text? "in_scope").map _).filter _).getD v.inScope = true
  rcases h with htrue | ⟨hnone, hscope⟩
  · rw [htrue, Option.map_some, Option.filter_some]
    cases v.inScope <;> rfl
  · rw [hnone]
    exact hscope

end VariableTable

namespace Watch

/-- A string of the target reaches the watches on it. It may be any text, printed at any address,
and both the string in the value and the value in the record may be spelled in any way. The line of
the record is read as that record. If the record answers a creation the object that it describes
reads as the string once it is stored, and if an entry of its change list reports the value of an
object, that object reads as the string once the entry is applied, as long as it is in scope. -/
theorem decoded_of_spelled {s inside : String} (address : Address)
    (hspells : Spells inside.toList (s.toList.flatMap String.utf8EncodeChar))
    {token : Option Token} {cls : String} {fields : Fields} {text ending : String}
    (hrecord : (Record.result token cls fields).Printable)
    (hshown : Shown (Record.result token cls fields).elements text.toList)
    (hending : ending ∈ ["", "\n", "\r", "\r\n"]) :
    Record.parse (text ++ ending) = .ok (.result token cls fields) ∧
    (∀ name expression, fields.text? "name" = some name →
      fields.text? "value" = some (Printed.string address inside) →
        ∃ v, Variable.ofCreate expression fields = .ok v ∧
          ∀ table : VariableTable, (table.insert v).ReadsAs name s) ∧
    ∀ entry ∈ fields.tuples "changelist", ∀ name (table : VariableTable) v,
      entry.text? "name" = some name →
      entry.text? "value" = some (Printed.string address inside) →
        table.Linked → table.get? name = some v →
        (entry.text? "in_scope" = some "true" ∨
          entry.text? "in_scope" = none ∧ v.inScope = true) →
          (table.applyUpdate entry).2.ReadsAs name s := by
  refine ⟨Record.parse_of_shown hrecord hshown hending, ?_, ?_⟩
  · intro name expression hname hvalue
    have hcreate : ∃ v, Variable.ofCreate expression fields = .ok v ∧ v.name = name ∧
        v.inScope = true ∧ v.value = some (Printed.string address inside) := by
      unfold Variable.ofCreate
      rw [hname]
      exact ⟨_, rfl, rfl, rfl, hvalue⟩
    obtain ⟨v, hv, rfl, hscope, hstored⟩ := hcreate
    refine ⟨v, hv, fun table ↦ VariableTable.readsAs_of_get? hspells ?_ hscope hstored⟩
    rw [VariableTable.get?_insert, if_pos rfl]
  · intro entry _ name table v hname hvalue hlinked hget hscope
    exact VariableTable.readsAs_of_get? hspells (hlinked.get?_applyUpdate hname hget)
      (VariableTable.inScope_changed hscope) (VariableTable.value_changed hvalue)

/-- The answer to a creation, with an accented letter and a quote in the string. -/
def accented : Fields :=
  ⟨[("name", .text "var1"), ("value", .text (Printed.string 1 "\\303\\251\\\""))]⟩

theorem printable_accented : (Record.result none "done" accented).Printable := by
  refine ⟨⟨'d', ['o', 'n', 'e'], rfl, .inl rfl, by simp⟩, .tuple (by decide) ?_ ?_⟩
  · exact List.forall_mem_cons.mpr ⟨⟨'n', ['a', 'm', 'e'], rfl, .inl rfl, by simp⟩,
      List.forall_mem_singleton.mpr ⟨'v', ['a', 'l', 'u', 'e'], rfl, .inl rfl, by simp⟩⟩
  · exact List.forall_mem_cons.mpr ⟨.text, List.forall_mem_singleton.mpr .text⟩

theorem spells_accented :
    Spells "\\303\\251\\\"".toList ("\u00e9\"".toList.flatMap String.utf8EncodeChar) := by
  have hinside : "\\303\\251\\\"".toList =
      '\\' :: (['3', '0', '3'] ++ '\\' :: (['2', '5', '1'] ++ ['\\', '"'])) := by decide
  have hbytes : "\u00e9\"".toList.flatMap String.utf8EncodeChar = [0xc3, 0xa9, 0x22] := by decide
  rw [hinside, hbytes]
  refine .octal (by decide) (by decide) (List.all_eq_true.mp rfl) (.inl rfl) ?_
  refine .octal (by decide) (by decide) (List.all_eq_true.mp rfl) (.inl rfl) ?_
  exact .escaped rfl .nil

/-- The letter is spelled by the numbers of its two bytes, and in the record the backslashes of that
are escaped. -/
theorem decoded_of_spelled_of_accent :
    Record.parse ("^done,name=\"var1\",value=\"0x1 \\\"\\\\303\\\\251\\\\\\\"\\\"\"" ++ "\n") =
      .ok (.result none "done" accented) ∧
    ∃ v, Variable.ofCreate "s" accented = .ok v ∧
      (Watch.mk "var1" "s" .cString).decode (VariableTable.empty.insert v) = .text "\u00e9\"" := by
  have hline : (Record.result none "done" accented).elements.flatMap Element.source =
      "^done,name=\"var1\",value=\"0x1 \\\"\\\\303\\\\251\\\\\\\"\\\"\"".toList := by decide
  have hshown := shown_flatMap_source (Record.result none "done" accented).elements
  rw [hline] at hshown
  obtain ⟨hparse, hcreate, -⟩ :=
    decoded_of_spelled 1 spells_accented printable_accented hshown (by decide : "\n" ∈ _)
  obtain ⟨v, hv, hreads⟩ := hcreate "var1" "s" rfl rfl
  exact ⟨hparse, v, hv, (hreads VariableTable.empty).1 "s"⟩

end Watch

end DebugLink
