import DebugLink.Command.Request
import DebugLink.Proofs.Command.Framing
import DebugLink.Proofs.Record.Spelling
import DebugLink.Proofs.Text.Utf8

/-!
The line of a command taken apart again. A line is split at single spaces, except that a piece that
begins with a double quote goes on to its closing quote and is read as strings in records are
(`Command.pieces?`). Every request is found in the pieces of its line as long as its operation can
be told from what stands around it (`Request.recovered`). Only an operation without a name of its
own, which is written as it is given, need not be of that kind.
-/

set_option autoImplicit false

namespace DebugLink

namespace Command

variable {command : Command} {chars rest : List Char} {piece : String}

/-! ### Pieces -/

/-- The first piece of a text and what follows it. -/
def nextPiece? (chars : List Char) : Option (String × List Char) :=
  if chars.head? = some '"' then (Symbol.lexer.first? 0 chars).map Prod.snd
  else some (String.ofList (chars.takeWhile (· ≠ ' ')), chars.dropWhile (· ≠ ' '))

theorem length_le_of_nextPiece? (h : nextPiece? chars = some (piece, rest)) :
    rest.length ≤ chars.length := by
  unfold nextPiece? at h
  split_ifs at h
  · obtain ⟨⟨kind, text, left⟩, hfirst, heq⟩ := Option.map_eq_some_iff.mp h
    cases heq
    exact Nat.le_of_lt (Lexer.length_lt_of_first? hfirst)
  · cases h
    exact (List.dropWhile_sublist _).length_le

/-- The pieces of a text. There are none if a string is not closed, or runs on after its quote. -/
def pieces? (chars : List Char) : Option (List String) :=
  match _h : nextPiece? chars with
  | some (piece, []) => some [piece]
  | some (piece, ' ' :: rest) => (pieces? rest).map (piece :: ·)
  | _ => none
termination_by chars.length
decreasing_by exact length_le_of_nextPiece? _h

theorem pieces?_of_last (h : nextPiece? chars = some (piece, [])) :
    pieces? chars = some [piece] := by
  unfold pieces?
  split <;> simp_all

theorem pieces?_of_more (h : nextPiece? chars = some (piece, ' ' :: rest)) :
    pieces? chars = (pieces? rest).map (piece :: ·) := by
  rw [pieces?]
  split <;> simp_all

/-- Whether a text is at its end or goes on with a space. -/
def EndsPiece (text : List Char) : Prop :=
  ∀ c, text.head? = some c → c = ' '

/-- A run of characters without spaces is a piece, unless it begins like a string. -/
theorem nextPiece?_of_unquoted (hquote : chars.head? ≠ some '"') (hspace : ' ' ∉ chars)
    (hrest : EndsPiece rest) :
    nextPiece? (chars ++ rest) = some (String.ofList chars, rest) := by
  have hhead : (chars ++ rest).head? ≠ some '"' := by
    cases chars with
    | nil => exact fun hc ↦ absurd (hrest '"' hc) (by decide)
    | cons c others => exact hquote
  have hrun : ∀ c ∈ chars, decide (c ≠ ' ') = true := fun c hc ↦
    decide_eq_true fun heq ↦ hspace (heq ▸ hc)
  have hstops : ∀ c, rest.head? = some c → decide (c ≠ ' ') = false := fun c hc ↦
    decide_eq_false fun hne ↦ hne (hrest c hc)
  obtain ⟨htake, hdrop⟩ := Text.run_append hrun hstops
  rw [nextPiece?, if_neg hhead, htake, hdrop]

/-! ### Arguments -/

/-- What is written for a character between quotes stands for it. -/
theorem escapes_quoteChar : Escapes quoteChar := by
  intro c
  unfold quoteChar
  split
  case h_1 => exact .inr ⟨'"', rfl, rfl, rfl⟩
  case h_2 => exact .inr ⟨'\\', rfl, rfl, rfl⟩
  case h_3 => exact .inr ⟨'n', rfl, rfl, rfl⟩
  case h_4 => exact .inr ⟨'t', rfl, rfl, rfl⟩
  case h_5 hquote hbackslash _ _ => exact .inl ⟨rfl, hquote, hbackslash⟩

theorem first?_quoted (text : String) (rest : List Char) :
    Symbol.lexer.first? 0 ('"' :: (text.toList.flatMap quoteChar ++ '"' :: rest)) =
      some (some .quoted, text, rest) := by
  rw [Symbol.first?_eq_scan]
  refine Symbol.scan_of_scanPattern ?_
  rw [Symbol.scanPattern, if_pos rfl,
    Symbol.scanQuoted_of_spells (escapes_quoteChar.spells text.toList), Option.map_some,
    Utf8.toText_flatMap]

/-- An argument is a piece of its own, whether it is written between quotes or not. -/
theorem nextPiece?_quote (argument : String) (hrest : EndsPiece rest) :
    nextPiece? (quote argument.toList ++ rest) = some (argument, rest) := by
  unfold quote
  split_ifs with hplain
  · simp only [isPlainArgument, Bool.and_eq_true, Bool.not_eq_true', List.any_eq_false,
      Bool.or_eq_true, decide_eq_true_eq, not_or] at hplain
    obtain ⟨-, hnone⟩ := hplain
    have hquote : argument.toList.head? ≠ some '"' := fun hhead ↦
      (hnone '"' (List.mem_of_mem_head? hhead)).1.2 rfl
    have hspace : ' ' ∉ argument.toList := fun hmem ↦ (hnone ' ' hmem).1.1 rfl
    rw [nextPiece?_of_unquoted hquote hspace hrest, String.ofList_toList]
  · have hquoted : ['"'] ++ argument.toList.flatMap quoteChar ++ ['"'] ++ rest =
        '"' :: (argument.toList.flatMap quoteChar ++ '"' :: rest) := by simp
    rw [hquoted, nextPiece?, if_pos List.head?_cons, first?_quoted]
    rfl

/-! ### Lines -/

theorem endsPiece_arguments (arguments : List String) :
    EndsPiece (arguments.flatMap fun a ↦ ' ' :: quote a.toList) := by
  cases arguments with
  | nil => nofun
  | cons a others => exact fun c hc ↦ (Option.some.inj hc).symm

/-- The pieces of a text that goes on with arguments are its own one and the arguments. -/
theorem pieces?_arguments (arguments : List String)
    (h : ∀ rest, EndsPiece rest → nextPiece? (chars ++ rest) = some (piece, rest)) :
    pieces? (chars ++ arguments.flatMap fun a ↦ ' ' :: quote a.toList) =
      some (piece :: arguments) := by
  -- The piece in front is any text that ends where a space follows, so each argument can be next.
  induction arguments generalizing chars piece with
  | nil => exact pieces?_of_last (h [] nofun)
  | cons a others ih =>
    have hfirst : nextPiece? (chars ++ (a :: others).flatMap fun a ↦ ' ' :: quote a.toList) =
        some (piece, ' ' :: (quote a.toList ++ others.flatMap fun a ↦ ' ' :: quote a.toList)) :=
      h _ (endsPiece_arguments (a :: others))
    rw [pieces?_of_more hfirst, ih fun rest hrest ↦ nextPiece?_quote a hrest, Option.map_some]

/-- Whether an operation can be told from the token before it and from the arguments after it. -/
structure IsOperation (operation : List Char) : Prop where
  endsToken : EndsToken operation
  unquoted : operation.head? ≠ some '"'
  oneLine : '\n' ∉ operation
  oneWord : ' ' ∉ operation

theorem dropWhile_render (h : EndsToken command.operation.toList) (token : Token) :
    (command.render token).toList.dropWhile Char.isDigit = command.body := by
  have hdigits : ∀ c ∈ (toString token.toNat).toList, c.isDigit = true :=
    fun c hc ↦ isDigit_of_mem_token hc
  have hbody : EndsToken command.body := by
    rw [← leadingDigits_eq_nil_iff, body_eq, leadingDigits,
      Text.takeWhile_append_of_head command.endsToken_tail]
    exact leadingDigits_eq_nil_iff.mpr h
  rw [render, String.toList_ofList]
  exact (Text.run_append hdigits hbody).2

theorem pieces?_body (hverbatim : command.verbatim = false)
    (h : IsOperation command.operation.toList) :
    pieces? command.body = some (command.operation :: command.arguments) := by
  rw [body, hverbatim]
  refine pieces?_arguments command.arguments fun rest hrest ↦ ?_
  rw [nextPiece?_of_unquoted h.unquoted h.oneWord hrest, String.ofList_toList]

end Command

/-! ### Requests -/

namespace Request

open Command

/-- A hyphen, and then small letters and hyphens. -/
def isNamed (operation : String) : Bool :=
  operation.toList.head? = some '-' && operation.toList.all fun c ↦ c = '-' || c.isLower

theorem isOperation_of_isNamed {operation : String} (h : isNamed operation = true) :
    IsOperation operation.toList := by
  simp only [isNamed, Bool.and_eq_true, decide_eq_true_eq, List.all_eq_true, Bool.or_eq_true] at h
  obtain ⟨hhead, hall⟩ := h
  refine ⟨fun c hc ↦ ?_, ?_, fun hmem ↦ ?_, fun hmem ↦ ?_⟩
  · rw [hhead] at hc
    rw [← Option.some.inj hc]
    rfl
  · rw [hhead]
    decide
  · exact absurd (hall _ hmem) (by decide)
  · exact absurd (hall _ hmem) (by decide)

/-- Every operation is one of the debugger's, unless it is given as it is. -/
theorem isNamed_or_other (request : Request) : isNamed request.parts.1 = true ∨
    ∃ operation options parameters, request = .other operation options parameters := by
  cases request with
  | other operation options parameters => exact .inr ⟨operation, options, parameters, rfl⟩
  | _ => exact .inl (by simp [parts, isNamed])

/-- Nothing is lost in the line of a request. It is one line, the digits that it begins with are the
token, and the pieces of what follows are the operation, the options, two hyphens if they were put
in, and the parameters. This is so for all arguments, but an operation without a name of its own has
to be one that can be told from what stands around it. -/
theorem recovered (request : Request) (token : Token)
    (h : ∀ operation options parameters, request = .other operation options parameters →
      IsOperation operation.toList) :
    '\n' ∉ (request.command.render token).toList ∧
    leadingDigits (request.command.render token).toList = (toString token.toNat).toList ∧
    pieces? ((request.command.render token).toList.dropWhile Char.isDigit) =
      some (request.parts.1 :: (request.parts.2.1 ++
        (if request.command.needsSeparator then ["--"] else []) ++ request.parts.2.2)) := by
  have hoperation : IsOperation request.command.operation.toList := by
    rcases isNamed_or_other request with hnamed | ⟨operation, options, parameters, rfl⟩
    · exact isOperation_of_isNamed hnamed
    · exact h operation options parameters rfl
  obtain ⟨hline, htoken⟩ := (framed_iff request.command token).mpr
    ⟨hoperation.oneLine, hoperation.endsToken⟩
  refine ⟨hline, htoken, ?_⟩
  rw [dropWhile_render hoperation.endsToken]
  exact pieces?_body rfl hoperation

/-- A condition that has to be quoted and a location that could be taken for an option. -/
theorem recovered_of_condition :
    pieces? (((Request.breakInsert ⟨some "-odd file.c:3", some "s == \"a\\n\"", true, false, false,
        none, none⟩).command.render 7).toList.dropWhile Char.isDigit) =
      some ["-break-insert", "-t", "-c", "s == \"a\\n\"", "--", "-odd file.c:3"] ∧
    pieces? (((Request.other "-gdb-set" [] ["args", "", "a\nb"]).command.render 8).toList.dropWhile
        Char.isDigit) = some ["-gdb-set", "args", "", "a\nb"] := by
  refine ⟨(recovered (.breakInsert _) 7 nofun).2.2, (recovered (.other _ _ _) 8 ?_).2.2⟩
  rintro operation options parameters heq
  rw [← (Request.other.inj heq).1]
  exact isOperation_of_isNamed rfl

/-- Not every operation is found again: one with a line feed makes two lines. -/
theorem not_always_recovered :
    ¬ ∀ (request : Request) (token : Token),
      '\n' ∉ (request.command.render token).toList ∧
      leadingDigits (request.command.render token).toList = (toString token.toNat).toList ∧
      pieces? ((request.command.render token).toList.dropWhile Char.isDigit) =
        some (request.parts.1 :: (request.parts.2.1 ++
          (if request.command.needsSeparator then ["--"] else []) ++ request.parts.2.2)) :=
  fun h ↦ (h (.other "-break-list\n-exec-run" [] []) 1).1 (by decide)

end Request

end DebugLink
