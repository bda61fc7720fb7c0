import DebugLink.Record.Lexeme
import DebugLink.Proofs.Parser.Lexing
import DebugLink.Proofs.Text.Runs

/-!
The lexical elements of lines, one at a time. `Symbol.scan` takes the first element off a list of
characters without any parser: the first character decides between the kinds of elements, and each
kind goes on as far as it can. `Symbol.first?_eq_scan` says that the rules of the lexer, tried one
after the other, find the same element.
-/

set_option autoImplicit false

namespace DebugLink.Symbol

def isOctal (c : Char) : Bool :=
  octalDigits.toList.contains c

/-- Whether an identifier may begin with the character. -/
def startsName (c : Char) : Bool :=
  c.isAlpha || c == '_'

/-- Whether an identifier may go on with the character. -/
def continuesName (c : Char) : Bool :=
  c.isAlphanum || c == '_' || c == '-'

def isBlank (c : Char) : Bool :=
  c == ' ' || c == '\t'

/-- The octal digits after a backslash, three at most. -/
def octalRun (chars : List Char) : List Char :=
  (chars.take 3).takeWhile isOctal

/-- The bytes of a string up to its closing quote, and what follows that. -/
def scanQuoted : List Char → Option (List UInt8 × List Char)
  | [] => none
  | '"' :: rest => some ([], rest)
  | ['\\'] => none
  | '\\' :: c :: rest =>
    if isOctal c then
      (scanQuoted ((c :: rest).drop (octalRun (c :: rest)).length)).map fun found ↦
        (UInt8.ofNat (octalValue (octalRun (c :: rest))) :: found.1, found.2)
    else
      (scanQuoted rest).map fun found ↦
        (String.utf8EncodeChar (unescapeLetter c) ++ found.1, found.2)
  | c :: rest => (scanQuoted rest).map fun found ↦ (String.utf8EncodeChar c ++ found.1, found.2)
termination_by chars => chars.length

/-- The fixed texts with their kinds, in the order in which they are tried. -/
def literals : List (Symbol × String) :=
  [(.prompt, "(gdb)"), (.lineEnd, "\r\n"), (.lineEnd, "\n"), (.lineEnd, "\r"), (.equals, "="),
    (.star, "*"), (.plus, "+"), (.tilde, "~"), (.at, "@"), (.caret, "^"), (.ampersand, "&"),
    (.leftBrace, "\x7b"), (.rightBrace, "\x7d"), (.leftBracket, "["), (.rightBracket, "]"),
    (.comma, ",")]

/-- The first fixed text that the characters begin with, and what follows it. -/
def scanLiteral (chars : List Char) : Option (Option Symbol × String × List Char) :=
  literals.findSome? fun literal ↦
    (literal.2.toList.isPrefixOf? chars).map fun rest ↦ (some literal.1, literal.2, rest)

/-- The string, number, identifier or blank that the characters begin with, and what follows it. -/
def scanPattern : List Char → Option (Option Symbol × String × List Char)
  | [] => none
  | c :: rest =>
    if c = '"' then (scanQuoted rest).map fun found ↦ (some .quoted, Utf8.toText found.1, found.2)
    else if c.isDigit then
      some (some .number, String.ofList (c :: rest.takeWhile Char.isDigit),
        rest.dropWhile Char.isDigit)
    else if startsName c then
      some (some .identifier, String.ofList (c :: rest.takeWhile continuesName),
        rest.dropWhile continuesName)
    else if isBlank c then some (none, String.singleton c, rest)
    else none

/-- The first lexical element, and what follows it. -/
def scan (chars : List Char) : Option (Option Symbol × String × List Char) :=
  (scanLiteral chars).or (scanPattern chars)

/-- An octal digit is one byte long. -/
theorem ascii_of_isOctal {c : Char} (h : isOctal c = true) : c.toNat < 128 := by
  have hall : octalDigits.toList.all (·.toNat < 128) = true := by decide
  exact of_decide_eq_true (List.all_eq_true.mp hall c (List.contains_iff_mem.mp h))

/-- A character is no backslash if it is none at the end and none in front of another one. -/
theorem ne_backslash {c : Char} {rest : List Char} (hend : c = '\\' → rest = [] → False)
    (hescape : ∀ d others, c = '\\' → rest = d :: others → False) : c ≠ '\\' := by
  rintro rfl
  cases rest with
  | nil => exact hend rfl rfl
  | cons d others => exact hescape d others rfl rfl

theorem scanQuoted_closing (rest : List Char) : scanQuoted ('"' :: rest) = some ([], rest) := by
  rw [scanQuoted]

/-- After a backslash as many octal digits are taken as one byte has, and the byte is their value.
-/
theorem scanQuoted_octal {c : Char} (h : isOctal c = true) (rest : List Char) :
    scanQuoted ('\\' :: c :: rest) =
      (scanQuoted ((c :: rest).drop (octalRun (c :: rest)).length)).map fun found ↦
        (UInt8.ofNat (octalValue (octalRun (c :: rest))) :: found.1, found.2) := by
  rw [scanQuoted, if_pos h]

/-- After a backslash any other character stands for what it escapes. -/
theorem scanQuoted_escaped {c : Char} (h : isOctal c = false) (rest : List Char) :
    scanQuoted ('\\' :: c :: rest) =
      (scanQuoted rest).map fun found ↦
        (String.utf8EncodeChar (unescapeLetter c) ++ found.1, found.2) := by
  rw [scanQuoted, if_neg (Bool.eq_false_iff.mp h)]

/-- Any character but a quote or a backslash stands for its own bytes. -/
theorem scanQuoted_plain {c : Char} (hquote : c ≠ '"') (hbackslash : c ≠ '\\')
    (rest : List Char) :
    scanQuoted (c :: rest) =
      (scanQuoted rest).map fun found ↦ (String.utf8EncodeChar c ++ found.1, found.2) := by
  rw [scanQuoted]
  · exact hquote
  · exact fun h _ ↦ hbackslash h
  · exact fun _ _ h _ ↦ hbackslash h

/-! ### Strings -/

section Quoted

variable {calls : (rule : Empty) → Reader Char (NoRule rule)}

/-- One character or escape of a string. -/
def piece : Parser Char NoRule (List UInt8) :=
  (octalByte.either escapedBytes).either plainBytes

theorem read_just_cons (wanted c : Char) (rest : List Char) :
    (Parser.just wanted : Parser Char NoRule Char).read calls (c :: rest) =
      if c = wanted then .matched [c] c rest else .mismatch := by
  rw [Parser.just, Parser.read_satisfy_cons]
  simp only [decide_eq_true_eq]

theorem oneOf_octalDigits : (Parser.oneOf octalDigits : Parser Char NoRule Char) =
    .satisfy isOctal := rfl

/-- A byte in octal digits begins with a backslash. -/
theorem read_octalByte_of_ne {c : Char} (h : c ≠ '\\') (rest : List Char) :
    octalByte.read calls (c :: rest) = .mismatch := by
  rw [octalByte, Parser.read_map, Parser.read_skipThen, read_just_cons, if_neg h]
  rfl

theorem read_escapedBytes_of_ne {c : Char} (h : c ≠ '\\') (rest : List Char) :
    escapedBytes.read calls (c :: rest) = .mismatch := by
  rw [escapedBytes, Parser.read_map, Parser.read_skipThen, read_just_cons, if_neg h]
  rfl

/-- A plain character is a piece of its own. -/
theorem read_piece_plain {c : Char} (hquote : c ≠ '"') (hbackslash : c ≠ '\\')
    (rest : List Char) :
    piece.read calls (c :: rest) = .matched [c] (String.utf8EncodeChar c) rest := by
  have hplain : plainBytes.read calls (c :: rest) =
      .matched [c] (String.utf8EncodeChar c) rest := by
    rw [plainBytes, Parser.read_map, Parser.noneOf, Parser.read_satisfy_cons]
    simp [hquote, hbackslash]
  have hescaped : escapedBytes.read calls (c :: rest) = .mismatch :=
    read_escapedBytes_of_ne hbackslash rest
  have hoctal : octalByte.read calls (c :: rest) = .mismatch :=
    read_octalByte_of_ne hbackslash rest
  exact (Parser.read_either_of_mismatch
    ((Parser.read_either_of_mismatch hoctal).trans hescaped)).trans hplain

/-- An escaped character is a piece of two characters. -/
theorem read_piece_escaped {c : Char} (h : isOctal c = false) (rest : List Char) :
    piece.read calls ('\\' :: c :: rest) =
      .matched ['\\', c] (String.utf8EncodeChar (unescapeLetter c)) rest := by
  have hescaped : escapedBytes.read calls ('\\' :: c :: rest) =
      .matched ['\\', c] (String.utf8EncodeChar (unescapeLetter c)) rest := rfl
  have hoctal : octalByte.read calls ('\\' :: c :: rest) = .mismatch := by
    rw [octalByte, Parser.read_map, Parser.read_skipThen, read_just_cons, if_pos rfl,
      Reading.bind_matched, oneOf_octalDigits, Parser.read_several_satisfy_cons, h]
    rfl
  exact Parser.read_either_of_matched ((Parser.read_either_of_mismatch hoctal).trans hescaped)

/-- A byte in octal digits is a piece as long as the digits and the backslash. -/
theorem read_piece_octal {c : Char} (h : isOctal c = true) (rest : List Char) :
    piece.read calls ('\\' :: c :: rest) =
      .matched ('\\' :: octalRun (c :: rest)) [UInt8.ofNat (octalValue (octalRun (c :: rest)))]
        ((c :: rest).drop (octalRun (c :: rest)).length) := by
  have hoctal : octalByte.read calls ('\\' :: c :: rest) =
      .matched ('\\' :: octalRun (c :: rest)) [UInt8.ofNat (octalValue (octalRun (c :: rest)))]
        ((c :: rest).drop (octalRun (c :: rest)).length) := by
    rw [octalByte, Parser.read_map, Parser.read_skipThen, read_just_cons, if_pos rfl,
      Reading.bind_matched, oneOf_octalDigits, Parser.read_several_satisfy_cons, if_pos h]
    have hrun : octalRun (c :: rest) = c :: (rest.take 2).takeWhile isOctal := by
      simp [octalRun, h]
    rw [hrun]
    rfl
  exact Parser.read_either_of_matched (Parser.read_either_of_matched hoctal)

/-- The closing quote is no piece. -/
theorem read_piece_of_quote (rest : List Char) : piece.read calls ('"' :: rest) = .mismatch := rfl

/-- A backslash at the end is no piece. -/
theorem read_piece_of_end : piece.read calls ['\\'] = .mismatch := by
  have hnone : (Parser.satisfy isOctal : Parser Char NoRule Char).read calls [] = .mismatch := rfl
  have hoctal : octalByte.read calls ['\\'] = .mismatch := by
    rw [octalByte, Parser.read_map, Parser.read_skipThen, read_just_cons, if_pos rfl,
      Reading.bind_matched, oneOf_octalDigits, Parser.read_several,
      Reader.iterate_of_mismatch hnone]
    rfl
  have hescaped : escapedBytes.read calls ['\\'] = .mismatch := rfl
  exact (Parser.read_either_of_mismatch
    ((Parser.read_either_of_mismatch hoctal).trans hescaped)).trans rfl

/-- What the pieces of a string amount to once they end at the given characters. -/
def closed (pieces : List (List UInt8)) : List Char → Option (List UInt8 × List Char)
  | '"' :: rest => some (pieces.flatten, rest)
  | _ => none

/-- The first piece may be taken off a text before its end is looked for. -/
theorem closed_cons (bytes : List UInt8) (pieces : List (List UInt8)) (rest : List Char) :
    closed (bytes :: pieces) rest =
      (closed pieces rest).map fun found ↦ (bytes ++ found.1, found.2) := by
  unfold closed
  split <;> rfl

/-- A string is read piece by piece up to its closing quote. -/
theorem iterate_piece (calls : (rule : Empty) → Reader Char (NoRule rule)) (chars : List Char) :
    ∃ read pieces rest, Reader.iterate (piece.read calls) none chars = .matched read pieces rest ∧
      scanQuoted chars = closed pieces rest := by
  have hmore : ∀ {chars first left : List Char} {bytes : List UInt8},
      piece.read calls chars = .matched first bytes left → left.length < chars.length →
        (∃ read pieces rest,
          Reader.iterate (piece.read calls) none left = .matched read pieces rest ∧
            scanQuoted left = closed pieces rest) →
          ∃ read pieces rest,
            Reader.iterate (piece.read calls) none chars = .matched read pieces rest ∧
              (scanQuoted left).map (fun found ↦ (bytes ++ found.1, found.2)) =
                closed pieces rest := by
    rintro chars first left bytes hpiece hshorter ⟨read, pieces, rest, hothers, hscan⟩
    have hlimit : (none : Option Nat) ≠ some 0 := by simp
    refine ⟨first ++ read, bytes :: pieces, rest, ?_, ?_⟩
    · rw [Reader.iterate_of_matched hlimit hpiece hshorter, Option.map_none, hothers,
        Reading.bind_matched]
    · rw [hscan, closed_cons]
  fun_induction scanQuoted chars with
  | case1 => exact ⟨[], [], [], Reader.iterate_of_mismatch rfl, rfl⟩
  | case2 rest =>
    exact ⟨[], [], '"' :: rest, Reader.iterate_of_mismatch (read_piece_of_quote rest), rfl⟩
  | case3 => exact ⟨[], [], ['\\'], Reader.iterate_of_mismatch read_piece_of_end, rfl⟩
  | case4 c rest hoctal ih =>
    refine hmore (read_piece_octal hoctal rest) ?_ ih
    simp only [List.length_drop, List.length_cons]
    omega
  | case5 c rest hoctal ih =>
    refine hmore (read_piece_escaped (Bool.eq_false_iff.mpr hoctal) rest) ?_ ih
    simp only [List.length_cons]
    omega
  | case6 c rest hquote hend hbackslash ih =>
    have hplain := ne_backslash hend hbackslash
    exact hmore (read_piece_plain hquote hplain rest) (Nat.lt_succ_self _) ih

/-- A quoted string is read up to its closing quote. -/
theorem read_quotedText_of_some (calls : (rule : Empty) → Reader Char (NoRule rule))
    {chars rest : List Char} {bytes : List UInt8}
    (h : scanQuoted chars = some (bytes, rest)) :
    ∃ read, quotedText.read calls ('"' :: chars) =
      .matched ('"' :: read) (Utf8.toText bytes) rest := by
  obtain ⟨read, pieces, last, hpieces, hscan⟩ := iterate_piece calls chars
  rw [h] at hscan
  unfold closed at hscan
  split at hscan
  · obtain ⟨rfl, rfl⟩ : _ ∧ _ := by simpa using hscan
    refine ⟨read ++ ['"'], ?_⟩
    rw [quotedText, Parser.read_map, Parser.read_thenSkip, Parser.read_skipThen, read_just_cons,
      if_pos rfl, Reading.bind_matched, Parser.read_zeroOrMore]
    rw [piece] at hpieces
    rw [hpieces, Reading.bind_matched, Reading.bind_matched, read_just_cons, if_pos rfl]
    rfl
  · cases hscan

/-- Without a closing quote there is no string. -/
theorem read_quotedText_of_none {chars : List Char} (h : scanQuoted chars = none) :
    quotedText.read calls ('"' :: chars) = .mismatch := by
  obtain ⟨read, pieces, last, hpieces, hscan⟩ := iterate_piece calls chars
  have hclosing : (Parser.just '"' : Parser Char NoRule Char).read calls last = .mismatch := by
    cases last with
    | nil => rfl
    | cons c others =>
      have hne : c ≠ '"' := by
        rintro rfl
        rw [h] at hscan
        cases hscan
      rw [read_just_cons, if_neg hne]
  rw [quotedText, Parser.read_map, Parser.read_thenSkip, Parser.read_skipThen, read_just_cons,
    if_pos rfl, Reading.bind_matched, Parser.read_zeroOrMore]
  rw [piece] at hpieces
  rw [hpieces, Reading.bind_matched, Reading.bind_matched, hclosing]
  rfl

/-- A quoted text begins with a quote. -/
theorem read_quotedText_of_ne {c : Char} (h : c ≠ '"') (rest : List Char) :
    quotedText.read calls (c :: rest) = .mismatch := by
  rw [quotedText, Parser.read_map, Parser.read_thenSkip, Parser.read_skipThen, read_just_cons,
    if_neg h]
  rfl

end Quoted

/-! ### The rules of the lexer -/

section Rules

variable {calls : (rule : Empty) → Reader Char (NoRule rule)}

theorem toList_digits : digits.toList = Text.charRange '0' 10 := by decide +kernel

theorem toList_letters : letters.toList = Text.charRange 'a' 26 ++ Text.charRange 'A' 26 := by
  decide +kernel

/-- The set of digits, as a test of one character. -/
theorem oneOf_digits : (Parser.oneOf digits : Parser Char NoRule Char) =
    .satisfy Char.isDigit := by
  refine Parser.oneOf_eq_satisfy toList_digits (by decide +kernel) (by decide +kernel) fun c hc ↦ ?_
  exact Text.ascii_of_isAlphanum (by simp [Char.isAlphanum, hc])

/-- What a name may begin with, as a test of one character. -/
theorem oneOf_start : (Parser.oneOf (letters ++ "_") : Parser Char NoRule Char) =
    .satisfy startsName := by
  have hchars : (letters ++ "_").toList =
      Text.charRange 'a' 26 ++ Text.charRange 'A' 26 ++ ['_'] := by
    rw [String.toList_append, toList_letters]
    rfl
  refine Parser.oneOf_eq_satisfy hchars (by decide +kernel) (by decide +kernel) fun c hc ↦ ?_
  simp only [startsName, Bool.or_eq_true, beq_iff_eq] at hc
  rcases hc with halpha | rfl
  · exact Text.ascii_of_isAlphanum (by simp [Char.isAlphanum, halpha])
  · decide

/-- What a name may go on with, as a test of one character. -/
theorem oneOf_continue : (Parser.oneOf (letters ++ digits ++ "_-") : Parser Char NoRule Char) =
    .satisfy continuesName := by
  have hchars : (letters ++ digits ++ "_-").toList =
      Text.charRange 'a' 26 ++ Text.charRange 'A' 26 ++ Text.charRange '0' 10 ++ ['_', '-'] := by
    rw [String.toList_append, String.toList_append, toList_letters, toList_digits]
    rfl
  refine Parser.oneOf_eq_satisfy hchars (by decide +kernel) (by decide +kernel) fun c hc ↦ ?_
  simp only [continuesName, Bool.or_eq_true, beq_iff_eq] at hc
  rcases hc with (halphanum | rfl) | rfl
  · exact Text.ascii_of_isAlphanum halphanum
  · decide
  · decide

/-- What separates lexemes, as a test of one character. -/
theorem oneOf_blank : (Parser.oneOf " \t" : Parser Char NoRule Char) = .satisfy isBlank := by
  have hchars : " \t".toList = [' ', '\t'] := rfl
  refine Parser.oneOf_eq_satisfy hchars (by decide +kernel) (by decide +kernel) fun c hc ↦ ?_
  simp only [isBlank, Bool.or_eq_true, beq_iff_eq] at hc
  rcases hc with rfl | rfl <;> decide

/-- The literals of the lexer, in the order in which they are tried. -/
theorem lexer_literals : lexer.literals =
    literals.map fun literal ↦ ⟨some literal.1, Parser.text literal.2⟩ := rfl

/-- The patterns of the lexer, in the order in which they are tried. -/
theorem lexer_patterns : lexer.patterns =
    [⟨some .quoted, quotedText⟩, ⟨some .number, Parser.word digits⟩,
      ⟨some .identifier, identifierText⟩,
      ⟨none, (Parser.oneOf " \t").mapTokens fun tokens _ ↦ String.ofList tokens⟩] := rfl

/-- A number is as many digits as there are. -/
theorem read_number_cons (c : Char) (rest : List Char) :
    (Parser.word digits : Parser Char NoRule String).read calls (c :: rest) =
      if c.isDigit then
        .matched (c :: rest.takeWhile Char.isDigit)
          (String.ofList (c :: rest.takeWhile Char.isDigit)) (rest.dropWhile Char.isDigit)
      else .mismatch := by
  rw [Parser.word, Parser.read_map, oneOf_digits, Parser.read_oneOrMore_satisfy_cons]
  split_ifs <;> rfl

/-- An identifier is one character that begins names and as many as there are that go on. -/
theorem read_identifier_cons (c : Char) (rest : List Char) :
    identifierText.read calls (c :: rest) =
      if startsName c then
        .matched (c :: rest.takeWhile continuesName)
          (String.ofList (c :: rest.takeWhile continuesName)) (rest.dropWhile continuesName)
      else .mismatch := by
  rw [identifierText, Parser.read_map, oneOf_start, oneOf_continue, Parser.read_both,
    Parser.read_satisfy_cons]
  split_ifs
  · rw [Reading.bind_matched, Parser.read_zeroOrMore_satisfy]
    rfl
  · rfl

/-- Blanks are taken one by one. -/
theorem read_blank_cons (c : Char) (rest : List Char) :
    ((Parser.oneOf " \t" : Parser Char NoRule Char).mapTokens fun tokens _ ↦
        String.ofList tokens).read calls (c :: rest) =
      if isBlank c then .matched [c] (String.singleton c) rest else .mismatch := by
  rw [oneOf_blank]
  simp only [Parser.read]
  split_ifs <;> rfl

/-- The first pattern that matches is the one that the scan finds. -/
theorem readFirst_patterns (chars : List Char) :
    Lexer.readFirst calls lexer.patterns chars = scanPattern chars := by
  cases chars with
  | nil =>
    cases hfirst : Lexer.readFirst calls lexer.patterns [] with
    | none => rfl
    | some found =>
      obtain ⟨read, hne, hnil⟩ := Lexer.exists_append_of_readFirst (fun i ↦ i.elim) hfirst
      exact absurd (List.append_eq_nil_iff.mp hnil.symm).1 hne
  | cons c rest =>
    have hquoted : Lexer.readFirst calls lexer.patterns (c :: rest) =
        if c = '"' then
          ((scanQuoted rest).map fun found ↦ (some .quoted, Utf8.toText found.1, found.2)).or
            (Lexer.readFirst calls lexer.patterns.tail (c :: rest))
        else Lexer.readFirst calls lexer.patterns.tail (c :: rest) := by
      rw [lexer_patterns]
      split_ifs with hquote
      · subst hquote
        cases hscan : scanQuoted rest with
        | some found =>
          obtain ⟨read, hread⟩ := read_quotedText_of_some calls hscan
          rw [Lexer.readFirst_cons_of_matched _ hread (List.cons_ne_nil _ _)]
          rfl
        | none =>
          rw [Lexer.readFirst_cons_of_mismatch _ (read_quotedText_of_none hscan)]
          rfl
      · rw [Lexer.readFirst_cons_of_mismatch _ (read_quotedText_of_ne hquote rest)]
        rfl
    have hword : Lexer.readFirst calls lexer.patterns.tail (c :: rest) =
        if c.isDigit then
          some (some .number, String.ofList (c :: rest.takeWhile Char.isDigit),
            rest.dropWhile Char.isDigit)
        else if startsName c then
          some (some .identifier, String.ofList (c :: rest.takeWhile continuesName),
            rest.dropWhile continuesName)
        else if isBlank c then some (none, String.singleton c, rest)
        else none := by
      rw [lexer_patterns, List.tail_cons]
      simp only [Lexer.readFirst, read_number_cons, read_identifier_cons, read_blank_cons]
      split_ifs <;> rfl
    rw [hquoted, hword, scanPattern]
    by_cases hquote : c = '"'
    · subst hquote
      rw [if_pos rfl, if_pos rfl]
      cases scanQuoted rest <;> rfl
    · rw [if_neg hquote, if_neg hquote]

end Rules

/-- The rules of the lexer find the first element. -/
theorem first?_eq_scan (chars : List Char) : lexer.first? 0 chars = scan chars := by
  rw [Lexer.first?, lexer_literals, Lexer.readFirst_literals _ (by decide), readFirst_patterns]
  rfl

/-! ### Numbers, and a line end that is supplied -/

/-- Whether a fixed text begins with the character. -/
def beginsLiteral (c : Char) : Bool :=
  ['(', '\r', '\n', '=', '*', '+', '~', '@', '^', '&', '\x7b', '\x7d', '[', ']', ','].contains c

/-- What a fixed text begins with belongs to no other element. -/
theorem classes_of_beginsLiteral {c : Char} (h : beginsLiteral c = true) :
    c ≠ '"' ∧ c.isDigit = false ∧ startsName c = false ∧ isBlank c = false ∧
      continuesName c = false := by
  have hall : ['(', '\r', '\n', '=', '*', '+', '~', '@', '^', '&', '\x7b', '\x7d', '[', ']',
      ','].all (fun d ↦ decide (d ≠ '"' ∧ d.isDigit = false ∧ startsName d = false ∧
        isBlank d = false ∧ continuesName d = false)) = true := by decide
  exact of_decide_eq_true (List.all_eq_true.mp hall c (List.contains_iff_mem.mp h))

/-- Every literal begins with a character that the scan looks for. -/
theorem beginsLiteral_of_mem :
    ∀ literal ∈ literals, literal.2.toList.head?.map beginsLiteral = some true := by decide

/-- Where no literal begins none is found. -/
theorem scanLiteral_of_not_begins {c : Char} (h : beginsLiteral c = false) (rest : List Char) :
    scanLiteral (c :: rest) = none := by
  rw [scanLiteral, List.findSome?_eq_none_iff]
  intro literal hmem
  have hbegins := beginsLiteral_of_mem literal hmem
  cases htext : literal.2.toList with
  | nil =>
    rw [htext] at hbegins
    cases hbegins
  | cons first others =>
    have hfirst : first ≠ c := by
      rintro rfl
      rw [htext, List.head?_cons, Option.map_some, h] at hbegins
      cases hbegins
    simp [List.isPrefixOf?, hfirst]

/-- The only literal that begins with a parenthesis is the prompt. -/
theorem scanLiteral_paren {tail rest : List Char} {kind : Option Symbol} {text : String}
    (h : scanLiteral ('(' :: tail) = some (kind, text, rest)) :
    kind = some .prompt ∧ text = "(gdb)" ∧ tail = 'g' :: 'd' :: 'b' :: ')' :: rest := by
  cases hfront : ['g', 'd', 'b', ')'].isPrefixOf? tail with
  | none => simp [scanLiteral, literals, List.isPrefixOf?, hfront] at h
  | some left =>
    obtain rfl := List.isPrefixOf?_eq_some_iff_append_eq.mp hfront
    cases h
    exact ⟨rfl, rfl, rfl⟩

/-- A carriage return without a line feed behind it is the end of a line by itself. -/
theorem scanLiteral_return (tail : List Char) (h : tail.head? ≠ some '\n') :
    scanLiteral ('\r' :: tail) = some (some .lineEnd, "\r", tail) := by
  have hnone : ['\n'].isPrefixOf? tail = none := by
    cases tail with
    | nil => rfl
    | cons c others =>
      have hne : '\n' ≠ c := by
        rintro rfl
        exact h rfl
      simp [List.isPrefixOf?, hne]
  simp [scanLiteral, literals, List.isPrefixOf?, hnone]

/-- The fixed texts that begin with a character end where they end, whatever follows. Only a lone
carriage return would be taken together with a line feed. -/
theorem scanLiteral_append_feed {chars rest : List Char} {kind : Option Symbol} {text : String}
    (h : scanLiteral chars = some (kind, text, rest)) (hlast : chars.getLast? ≠ some '\r') :
    scanLiteral (chars ++ ['\n']) = some (kind, text, rest ++ ['\n']) := by
  cases chars with
  | nil => cases h
  | cons c tail =>
    cases hbegins : beginsLiteral c with
    | false =>
      rw [scanLiteral_of_not_begins hbegins] at h
      cases h
    | true =>
      simp only [beginsLiteral, List.contains_cons, Bool.or_eq_true, beq_iff_eq,
        List.contains_nil, Bool.or_false] at hbegins
      rcases hbegins with rfl | rfl | rfl | rfl | rfl | rfl | rfl | rfl | rfl | rfl | rfl | rfl |
        rfl | rfl | rfl
      · obtain ⟨rfl, rfl, rfl⟩ := scanLiteral_paren h
        rfl
      · by_cases hfeed : tail.head? = some '\n'
        · obtain ⟨others, rfl⟩ := List.head?_eq_some_iff.mp hfeed
          cases h
          rfl
        · rw [scanLiteral_return tail hfeed] at h
          have hne : tail ≠ [] := by
            rintro rfl
            exact hlast rfl
          have hhead : (tail ++ ['\n']).head? ≠ some '\n' := by
            rwa [List.head?_append_of_ne_nil _ hne]
          cases h
          exact scanLiteral_return _ hhead
      all_goals
        cases h
        rfl

/-- Octal digits that end before the characters do end there whatever follows. -/
theorem octalRun_append {chars : List Char} (h : chars.drop (octalRun chars).length ≠ [])
    (tail : List Char) : octalRun (chars ++ tail) = octalRun chars := by
  have hlength : (octalRun chars).length < chars.length := by
    rw [ne_eq, List.drop_eq_nil_iff, Nat.not_le] at h
    exact h
  rw [octalRun, octalRun] at *
  by_cases hlong : 3 ≤ chars.length
  · rw [List.take_append_of_le_length hlong]
  · have hall : chars.take 3 = chars := List.take_of_length_le (by omega)
    rw [hall] at hlength
    rw [List.take_append, hall, List.takeWhile_append, if_neg (Nat.ne_of_lt hlength)]

/-- A string ends where it ends, whatever follows. -/
theorem scanQuoted_append {chars rest : List Char} {bytes : List UInt8}
    (h : scanQuoted chars = some (bytes, rest)) (tail : List Char) :
    scanQuoted (chars ++ tail) = some (bytes, rest ++ tail) := by
  fun_induction scanQuoted chars generalizing bytes rest with
  | case1 => cases h
  | case2 left =>
    cases h
    exact scanQuoted_closing _
  | case3 => cases h
  | case4 c left hoctal ih =>
    obtain ⟨found, hfound, heq⟩ := Option.map_eq_some_iff.mp h
    cases heq
    have hne : (c :: left).drop (octalRun (c :: left)).length ≠ [] := by
      intro hnil
      rw [hnil, scanQuoted] at hfound
      cases hfound
    have hle : (octalRun (c :: left)).length ≤ (c :: left).length := by
      rw [ne_eq, List.drop_eq_nil_iff] at hne
      omega
    have hrun := octalRun_append hne tail
    rw [List.cons_append, List.cons_append, scanQuoted_octal hoctal, ← List.cons_append, hrun,
      List.drop_append_of_le_length hle, ih hfound]
    rfl
  | case5 c left hoctal ih =>
    obtain ⟨found, hfound, heq⟩ := Option.map_eq_some_iff.mp h
    cases heq
    rw [List.cons_append, List.cons_append, scanQuoted_escaped (Bool.eq_false_iff.mpr hoctal),
      ih hfound]
    rfl
  | case6 c left hquote hend hbackslash ih =>
    obtain ⟨found, hfound, heq⟩ := Option.map_eq_some_iff.mp h
    cases heq
    have hplain := ne_backslash hend hbackslash
    rw [List.cons_append, scanQuoted_plain hquote hplain, ih hfound]
    rfl

/-- A line feed at the end does not change which pattern comes first. -/
theorem scanPattern_append_feed {chars rest : List Char} {kind : Option Symbol} {text : String}
    (h : scanPattern chars = some (kind, text, rest)) :
    scanPattern (chars ++ ['\n']) = some (kind, text, rest ++ ['\n']) := by
  have hdigit : ∀ c, ['\n'].head? = some c → c.isDigit = false := by
    rintro c hc
    cases hc
    rfl
  have hname : ∀ c, ['\n'].head? = some c → continuesName c = false := by
    rintro c hc
    cases hc
    rfl
  cases chars with
  | nil => cases h
  | cons c tail =>
    rw [List.cons_append, scanPattern]
    rw [scanPattern] at h
    split_ifs at h ⊢ with hquote
    · obtain ⟨found, hfound, heq⟩ := Option.map_eq_some_iff.mp h
      cases heq
      rw [scanQuoted_append hfound]
      rfl
    · cases h
      rw [Text.takeWhile_append_of_head hdigit, Text.dropWhile_append_of_head hdigit]
    · cases h
      rw [Text.takeWhile_append_of_head hname, Text.dropWhile_append_of_head hname]
    · cases h
      rfl

/-- No fixed text begins as a pattern does. -/
theorem not_beginsLiteral_of_scanPattern {c : Char} {tail : List Char}
    (h : scanPattern (c :: tail) ≠ none) : beginsLiteral c = false := by
  rw [Bool.eq_false_iff]
  intro hbegins
  obtain ⟨hquote, hdigit, hstart, hblank, -⟩ := classes_of_beginsLiteral hbegins
  refine h ?_
  rw [scanPattern, if_neg hquote, hdigit, hstart, hblank]
  rfl

/-- A pattern that is found is what the scan finds, since no literal is found where one begins. -/
theorem scan_of_scanPattern {chars : List Char} {found : Option Symbol × String × List Char}
    (h : scanPattern chars = some found) : scan chars = some found := by
  cases chars with
  | nil => cases h
  | cons c tail =>
    have hbegins : beginsLiteral c = false :=
      not_beginsLiteral_of_scanPattern (Option.ne_none_iff_exists'.mpr ⟨found, h⟩)
    rw [scan, scanLiteral_of_not_begins hbegins, h]
    rfl

/-- An element ends where it ends also if a line feed is put after the characters, unless these end
in a carriage return. -/
theorem scan_append_feed {chars rest : List Char} {kind : Option Symbol} {text : String}
    (h : scan chars = some (kind, text, rest)) (hlast : chars.getLast? ≠ some '\r') :
    scan (chars ++ ['\n']) = some (kind, text, rest ++ ['\n']) := by
  rw [scan, Option.or_eq_some_iff] at h
  rcases h with hliteral | ⟨-, hpattern⟩
  · rw [scan, scanLiteral_append_feed hliteral hlast]
    rfl
  · exact scan_of_scanPattern (scanPattern_append_feed hpattern)

/-- Numbers are spelled by decimal digits. -/
theorem digits_of_scan {chars rest : List Char} {text : String}
    (h : scan chars = some (some .number, text, rest)) :
    text.toList ≠ [] ∧ ∀ c ∈ text.toList, c.isDigit = true := by
  have hkinds : ∀ literal ∈ literals, literal.1 ≠ .number := by decide
  rw [scan, Option.or_eq_some_iff] at h
  rcases h with hliteral | ⟨-, hpattern⟩
  · obtain ⟨literal, hmem, hfound⟩ := List.exists_of_findSome?_eq_some hliteral
    obtain ⟨left, -, heq⟩ := Option.map_eq_some_iff.mp hfound
    have hkind : literal.1 = .number := by simpa using congrArg Prod.fst heq
    exact absurd hkind (hkinds literal hmem)
  · cases chars with
    | nil => cases hpattern
    | cons c tail =>
      rw [scanPattern] at hpattern
      split_ifs at hpattern with hquote hdigit
      · obtain ⟨found, -, heq⟩ := Option.map_eq_some_iff.mp hpattern
        cases heq
      · cases hpattern
        rw [String.toList_ofList]
        refine ⟨List.cons_ne_nil _ _, ?_⟩
        intro d hd
        rcases List.mem_cons.mp hd with rfl | hrun
        · exact hdigit
        · exact List.mem_takeWhile_imp hrun
      · cases hpattern
      · cases hpattern

end DebugLink.Symbol
