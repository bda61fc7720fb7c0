import DebugLink.Command.Basic
import DebugLink.Proofs.Record.Lexemes
import DebugLink.Proofs.Text.Numeral

/-!
Lines as the debugger takes them. A line ends at the first line feed, and the digits that it begins
with are the token, which the answer repeats. Arguments are written without line feeds, so it is for
the operation alone, which is written as it is, whether the line of a command is one line that
begins with its token (`Command.framed_iff`).
-/

set_option autoImplicit false

namespace DebugLink.Command

variable {command : Command} {token : Token} {text : List Char}

/-- The digits that a line begins with. -/
def leadingDigits (line : List Char) : List Char :=
  line.takeWhile Char.isDigit

/-- The token that the answer to a line has. -/
def echo? (line : List Char) : Option Token :=
  Numeral.word64? (String.ofList (leadingDigits line))

/-- Whether a text that follows a token leaves it as it is. -/
def EndsToken (text : List Char) : Prop :=
  ∀ c, text.head? = some c → c.isDigit = false

/-- Whether the line of a command is one line with the token of the command. -/
structure Framed (command : Command) (token : Token) : Prop where
  oneLine : '\n' ∉ (command.render token).toList
  tagged : leadingDigits (command.render token).toList = (toString token.toNat).toList

/-! ### Arguments -/

theorem newline_notMem_quoteChar (c : Char) : '\n' ∉ quoteChar c := by
  unfold quoteChar
  split
  case h_5 hnewline _ => exact fun hmem ↦ hnewline (List.mem_singleton.mp hmem).symm
  all_goals decide

theorem newline_notMem_quote (argument : List Char) : '\n' ∉ quote argument := by
  unfold quote
  split_ifs with hplain
  · intro hmem
    have hbreaks : argument.any (fun c ↦ isWhitespace c || c = '"' || c = '\\') = true :=
      List.any_eq_true.mpr ⟨'\n', hmem, by decide⟩
    rw [isPlainArgument, hbreaks, Bool.not_true, Bool.and_false] at hplain
    nomatch hplain
  · simp only [List.mem_append, List.mem_singleton, List.mem_flatMap]
    rintro ((hquote | ⟨c, -, hmem⟩) | hquote)
    · exact absurd hquote (by decide)
    · exact newline_notMem_quoteChar c hmem
    · exact absurd hquote (by decide)

/-! ### The line of a command -/

/-- What follows the operation in the line of a command. -/
def tail (command : Command) : List Char :=
  if command.verbatim then [] else command.arguments.flatMap fun a ↦ ' ' :: quote a.toList

theorem body_eq (command : Command) : command.body = command.operation.toList ++ command.tail := by
  unfold body tail
  split_ifs
  · exact (List.append_nil _).symm
  · rfl

theorem toList_render (command : Command) (token : Token) :
    (command.render token).toList =
      (toString token.toNat).toList ++ (command.operation.toList ++ command.tail) := by
  rw [render, String.toList_ofList, body_eq]

theorem newline_notMem_tail (command : Command) : '\n' ∉ command.tail := by
  unfold tail
  split_ifs
  · exact List.not_mem_nil
  · simp only [List.mem_flatMap, List.mem_cons]
    rintro ⟨a, -, hspace | hquote⟩
    · exact absurd hspace (by decide)
    · exact newline_notMem_quote a.toList hquote

theorem endsToken_tail (command : Command) : EndsToken command.tail := by
  unfold tail
  split_ifs
  · nofun
  · cases command.arguments with
    | nil => nofun
    | cons a others =>
      intro c hc
      rw [← Option.some.inj hc]
      rfl

theorem isDigit_of_mem_token {c : Char} (h : c ∈ (toString token.toNat).toList) :
    c.isDigit = true := by
  rw [Nat.toString_eq_repr, Nat.toList_repr] at h
  exact Nat.isDigit_of_mem_toDigits (by omega) (by omega) h

theorem leadingDigits_eq_nil_iff : leadingDigits text = [] ↔ EndsToken text := by
  cases text with
  | nil => exact iff_of_true rfl nofun
  | cons c others =>
    cases hdigit : c.isDigit <;> simp [leadingDigits, EndsToken, hdigit]

theorem leadingDigits_render (command : Command) (token : Token) :
    leadingDigits (command.render token).toList =
      (toString token.toNat).toList ++ leadingDigits command.operation.toList := by
  have hdigits : ∀ c ∈ (toString token.toNat).toList, c.isDigit = true :=
    fun c hc ↦ isDigit_of_mem_token hc
  calc
    leadingDigits (command.render token).toList
    _ = (toString token.toNat).toList ++
        leadingDigits (command.operation.toList ++ command.tail) := by
      rw [toList_render]
      exact List.takeWhile_append_of_pos hdigits
    _ = (toString token.toNat).toList ++ leadingDigits command.operation.toList := by
      rw [leadingDigits, Text.takeWhile_append_of_head command.endsToken_tail]
      rfl

/-- The line of a command is one line with its token if and only if the operation has no line feed
and does not begin with a digit. -/
theorem framed_iff (command : Command) (token : Token) :
    command.Framed token ↔
      '\n' ∉ command.operation.toList ∧ EndsToken command.operation.toList := by
  have hone : '\n' ∉ (command.render token).toList ↔ '\n' ∉ command.operation.toList := by
    have hdigits : '\n' ∉ (toString token.toNat).toList :=
      fun hmem ↦ absurd (isDigit_of_mem_token hmem) (by decide)
    simp only [toList_render, List.mem_append, hdigits, command.newline_notMem_tail, false_or,
      or_false]
  have htagged : leadingDigits (command.render token).toList = (toString token.toNat).toList ↔
      EndsToken command.operation.toList := by
    rw [leadingDigits_render, List.append_right_eq_self, leadingDigits_eq_nil_iff]
  exact ⟨fun h ↦ ⟨hone.mp h.oneLine, htagged.mp h.tagged⟩,
    fun h ↦ ⟨hone.mpr h.1, htagged.mpr h.2⟩⟩

/-! ### The token of the answer -/

/-- More digits after a number that is not zero make it greater. -/
theorem lt_ofDigitChars {digits : List Char} {n : Nat} (hn : 0 < n) (hdigits : digits ≠ []) :
    n < Nat.ofDigitChars 10 digits n := by
  have hlength : digits.length ≠ 0 := mt List.length_eq_zero_iff.mp hdigits
  calc
    n < 10 * n := by omega
    _ ≤ 10 ^ digits.length * n := Nat.mul_le_mul_right n (Nat.le_self_pow hlength 10)
    _ ≤ Nat.ofDigitChars 10 digits n := by
      rw [Nat.ofDigitChars_eq_ofDigitChars_zero]
      exact Nat.le_add_right _ _

/-- The number in the answer goes on with the digits that the operation begins with. -/
theorem echo?_render (command : Command) (token : Token) :
    echo? (command.render token).toList =
      if Nat.ofDigitChars 10 (leadingDigits command.operation.toList) token.toNat < UInt64.size then
        some (UInt64.ofNat
          (Nat.ofDigitChars 10 (leadingDigits command.operation.toList) token.toNat))
      else none := by
  -- Once the digits of the token are read, its value is where the other digits go on from.
  have hvalue : Nat.ofDigitChars 10 (leadingDigits (command.render token).toList) 0 =
      Nat.ofDigitChars 10 (leadingDigits command.operation.toList) token.toNat := by
    rw [leadingDigits_render, Nat.ofDigitChars_append, Nat.toString_eq_repr, Nat.toList_repr,
      Nat.ofDigitChars_ten_toDigits]
  rw [← hvalue, echo?, Numeral.word64?_of_isDigit, String.toList_ofList]
  · rw [String.toList_ofList, leadingDigits_render, Nat.toString_eq_repr, Nat.toList_repr]
    exact List.append_ne_nil_of_left_ne_nil Nat.toDigits_ne_nil _
  · rw [String.toList_ofList]
    exact fun c hc ↦ List.all_eq_true.mp List.all_takeWhile c hc

theorem echo?_of_endsToken (h : EndsToken command.operation.toList) :
    echo? (command.render token).toList = some token := by
  rw [echo?_render, leadingDigits_eq_nil_iff.mpr h, Nat.ofDigitChars_nil,
    if_pos token.toNat_lt_size, UInt64.ofNat_toNat]

theorem echo?_ne_of_not_endsToken (h : ¬EndsToken command.operation.toList) (htoken : token ≠ 0) :
    echo? (command.render token).toList ≠ some token := by
  have hpos : 0 < token.toNat := Nat.pos_of_ne_zero fun hzero ↦ htoken (UInt64.toNat.inj hzero)
  have hgreater := lt_ofDigitChars hpos (mt leadingDigits_eq_nil_iff.mp h)
  rw [echo?_render]
  split_ifs with hfits
  · intro heq
    have hsame := congrArg UInt64.toNat (Option.some.inj heq)
    rw [UInt64.toNat_ofNat_of_lt' hfits] at hsame
    omega
  · nofun

end DebugLink.Command
