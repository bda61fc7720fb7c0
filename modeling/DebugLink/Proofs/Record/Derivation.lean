import DebugLink.Record.Grammar
import DebugLink.Proofs.Parser.Derived
import DebugLink.Proofs.Table.Named

/-!
The context-free grammar of lines, and that the parser reads exactly its language. `Derives` has one
constructor for each production of the values, `DerivesRecord` and `DerivesLine` those of the lines.
A derivation says which record it is a derivation of: names that are repeated in a tuple or among
the fields of a record collapse, names in a list are all kept, and a token is the number that its
digits spell in base ten.

`read_of_derives` is completeness: a derived list is read as a whole, whatever follows it, with any
depth that is no less than its length. `derives_of_read` is soundness. The two meet in
`ofLexemes?_eq_some_iff`.
-/

set_option autoImplicit false

namespace DebugLink

/-- The mark of an asynchronous record. -/
def Notice.mark : Notice → Symbol
  | exec => .star
  | notify => .equals
  | status => .plus

/-- The mark of a stream record. -/
def Channel.mark : Channel → Symbol
  | console => .tilde
  | target => .at
  | log => .ampersand

namespace Record

/-! ### The productions -/

/-- The nonterminal symbols that values are derived from. -/
inductive Nonterminal
  | value
  | values
  | namedValue
  | namedValues

/-- What a derivation from a nonterminal symbol is a derivation of. -/
abbrev Nonterminal.Meaning : Nonterminal → Type
  | value => Value
  | values => List Value
  | namedValue => String × Value
  | namedValues => List (String × Value)

/-- The productions of values. -/
inductive Derives : (n : Nonterminal) → List (Lexeme Symbol) → n.Meaning → Prop
  /-- `value := string` -/
  | text {quoted : Lexeme Symbol} :
    quoted.kind = .quoted → Derives .value [quoted] (.text quoted.text)
  /-- `value := "{" "}"` -/
  | emptyTuple {opening closing : Lexeme Symbol} :
    opening.kind = .leftBrace → closing.kind = .rightBrace →
      Derives .value [opening, closing] (.tuple .empty)
  /-- `value := "{" results "}"` -/
  | tuple {opening closing : Lexeme Symbol} {inner : List (Lexeme Symbol)}
    {pairs : List (String × Value)} {fields : Fields} :
    opening.kind = .leftBrace → Derives .namedValues inner pairs → closing.kind = .rightBrace →
      NamedTable.Collapses pairs fields →
        Derives .value (opening :: (inner ++ [closing])) (.tuple fields)
  /-- `value := "[" "]"` -/
  | emptyList {opening closing : Lexeme Symbol} :
    opening.kind = .leftBracket → closing.kind = .rightBracket →
      Derives .value [opening, closing] (.values [])
  /-- `value := "[" values "]"` -/
  | bareList {opening closing : Lexeme Symbol} {inner : List (Lexeme Symbol)}
    {items : List Value} :
    opening.kind = .leftBracket → Derives .values inner items → closing.kind = .rightBracket →
      Derives .value (opening :: (inner ++ [closing])) (.values items)
  /-- `value := "[" results "]"` -/
  | namedList {opening closing : Lexeme Symbol} {inner : List (Lexeme Symbol)}
    {pairs : List (String × Value)} :
    opening.kind = .leftBracket → Derives .namedValues inner pairs →
      closing.kind = .rightBracket →
        Derives .value (opening :: (inner ++ [closing])) (.results pairs)
  /-- `values := value` -/
  | lastValue {item : List (Lexeme Symbol)} {value : Value} :
    Derives .value item value → Derives .values item [value]
  /-- `values := value "," values` -/
  | moreValues {comma : Lexeme Symbol} {item others : List (Lexeme Symbol)} {value : Value}
    {values : List Value} :
    Derives .value item value → comma.kind = .comma → Derives .values others values →
      Derives .values (item ++ [comma] ++ others) (value :: values)
  /-- `result := identifier "=" value` -/
  | namedValue {name equals : Lexeme Symbol} {inner : List (Lexeme Symbol)} {value : Value} :
    name.kind = .identifier → equals.kind = .equals → Derives .value inner value →
      Derives .namedValue (name :: equals :: inner) (name.text, value)
  /-- `results := result` -/
  | lastNamedValue {item : List (Lexeme Symbol)} {pair : String × Value} :
    Derives .namedValue item pair → Derives .namedValues item [pair]
  /-- `results := result "," results` -/
  | moreNamedValues {comma : Lexeme Symbol} {item others : List (Lexeme Symbol)}
    {pair : String × Value} {pairs : List (String × Value)} :
    Derives .namedValue item pair → comma.kind = .comma → Derives .namedValues others pairs →
      Derives .namedValues (item ++ [comma] ++ others) (pair :: pairs)

/-- The token of a record. It is missing if there are no digits, or if they spell a number that
no token has. -/
inductive DerivesToken : List (Lexeme Symbol) → Option Token → Prop
  | missing : DerivesToken [] none
  | spelled {digits : Lexeme Symbol} {token : Token} :
    digits.kind = .number → token.toNat = Nat.ofDigitChars 10 digits.text.toList 0 →
      DerivesToken [digits] (some token)
  | tooLarge {digits : Lexeme Symbol} :
    digits.kind = .number → UInt64.size ≤ Nat.ofDigitChars 10 digits.text.toList 0 →
      DerivesToken [digits] none

/-- `("," results)?` -/
inductive DerivesFields : List (Lexeme Symbol) → Fields → Prop
  | missing : DerivesFields [] .empty
  | listed {comma : Lexeme Symbol} {others : List (Lexeme Symbol)}
    {pairs : List (String × Value)} {fields : Fields} :
    comma.kind = .comma → Derives .namedValues others pairs → NamedTable.Collapses pairs fields →
      DerivesFields (comma :: others) fields

/-- The productions of records. -/
inductive DerivesRecord : List (Lexeme Symbol) → Record → Prop
  /-- `async := token? ("*" | "=" | "+") identifier ("," results)?` -/
  | async {notice : Notice} {digits others : List (Lexeme Symbol)} {mark cls : Lexeme Symbol}
    {token : Option Token} {fields : Fields} :
    DerivesToken digits token → mark.kind = notice.mark → cls.kind = .identifier →
      DerivesFields others fields →
        DerivesRecord (digits ++ mark :: cls :: others) (.async notice token cls.text fields)
  /-- `stream := ("~" | "@" | "&") string` -/
  | stream {channel : Channel} {mark quoted : Lexeme Symbol} :
    mark.kind = channel.mark → quoted.kind = .quoted →
      DerivesRecord [mark, quoted] (.stream channel quoted.text)
  /-- `result := token? "^" identifier ("," results)?` -/
  | result {digits others : List (Lexeme Symbol)} {mark cls : Lexeme Symbol}
    {token : Option Token} {fields : Fields} :
    DerivesToken digits token → mark.kind = .caret → cls.kind = .identifier →
      DerivesFields others fields →
        DerivesRecord (digits ++ mark :: cls :: others) (.result token cls.text fields)
  | prompt {mark : Lexeme Symbol} : mark.kind = .prompt → DerivesRecord [mark] .prompt

/-- `line := (async | stream | result | prompt) line-end` -/
inductive DerivesLine : List (Lexeme Symbol) → Record → Prop
  | mk {lexemes : List (Lexeme Symbol)} {ending : Lexeme Symbol} {record : Record} :
    DerivesRecord lexemes record → ending.kind = .lineEnd →
      DerivesLine (lexemes ++ [ending]) record

/-! ### Reading values -/

section Values

variable {calls : (rule : Unit) → Reader (Lexeme Symbol) (ValueRule rule)}

/-- A named value begins with a name. -/
theorem read_namedValue_of_mismatch {lexeme : Lexeme Symbol} (h : lexeme.kind ≠ .identifier)
    (rest : List (Lexeme Symbol)) : namedValue.read calls (lexeme :: rest) = .mismatch := by
  rw [namedValue, Parser.read_both, Parser.read_thenSkip, Parser.read_kind_cons, if_neg h]
  rfl

/-- A named value is a name, an equals sign and a value. -/
theorem read_namedValue_cons {name equals : Lexeme Symbol} (hname : name.kind = .identifier)
    (hequals : equals.kind = .equals) (rest : List (Lexeme Symbol)) :
    namedValue.read calls (name :: equals :: rest) =
      (value.read calls rest).bind fun inner value last ↦
        .matched (name :: equals :: inner) (name.text, value) last := by
  rw [namedValue, Parser.read_both, Parser.read_thenSkip, Parser.read_kind_cons, if_pos hname,
    Reading.bind_matched, Parser.read_kind_cons, if_pos hequals]
  rfl

/-- A tuple begins with a brace. -/
theorem read_tupleValue_of_mismatch {lexeme : Lexeme Symbol} (h : lexeme.kind ≠ .leftBrace)
    (rest : List (Lexeme Symbol)) : tupleValue.read calls (lexeme :: rest) = .mismatch := by
  rw [tupleValue, Parser.read_map, Parser.read_thenSkip, Parser.read_skipThen,
    Parser.read_kind_cons, if_neg h]
  rfl

/-- A tuple is a brace, named values if there are any, and a closing brace. -/
theorem read_tupleValue_cons {opening : Lexeme Symbol} (h : opening.kind = .leftBrace)
    (rest : List (Lexeme Symbol)) :
    tupleValue.read calls (opening :: rest) =
      (namedValues.optional.read calls rest).bind fun inner found middle ↦
        ((Parser.kind .rightBrace : LineParser String).read calls middle).bind fun closing _ last ↦
          .matched (opening :: (inner ++ closing)) (.tuple (.ofList (found.getD []))) last := by
  rw [tupleValue, Parser.read_map, Parser.read_thenSkip, Parser.read_skipThen,
    Parser.read_kind_cons, if_pos h, Reading.bind_matched]
  cases namedValues.optional.read calls rest with
  | matched inner found middle =>
    simp only [Reading.bind_matched]
    cases (Parser.kind .rightBrace : LineParser String).read calls middle <;> rfl
  | mismatch => rfl
  | tooDeep => rfl

/-- What may stand between the brackets of a list. -/
def listItems : LineParser Value :=
  (bareValues.map Value.values).either (namedValues.map Value.results)

/-- A list begins with a bracket. -/
theorem read_listValue_of_mismatch {lexeme : Lexeme Symbol} (h : lexeme.kind ≠ .leftBracket)
    (rest : List (Lexeme Symbol)) : listValue.read calls (lexeme :: rest) = .mismatch := by
  rw [listValue, Parser.read_map, Parser.read_thenSkip, Parser.read_skipThen,
    Parser.read_kind_cons, if_neg h]
  rfl

/-- A list is a bracket, items if there are any, and a closing bracket. -/
theorem read_listValue_cons {opening : Lexeme Symbol} (h : opening.kind = .leftBracket)
    (rest : List (Lexeme Symbol)) :
    listValue.read calls (opening :: rest) =
      (listItems.optional.read calls rest).bind fun inner found middle ↦
        ((Parser.kind .rightBracket : LineParser String).read calls middle).bind
          fun closing _ last ↦
            .matched (opening :: (inner ++ closing)) (found.getD (.values [])) last := by
  rw [listValue, Parser.read_map, Parser.read_thenSkip, Parser.read_skipThen,
    Parser.read_kind_cons, if_pos h, Reading.bind_matched]
  show ((listItems.optional.read calls rest).bind _ |>.bind _).bind _ = _
  cases listItems.optional.read calls rest with
  | matched inner found middle =>
    simp only [Reading.bind_matched]
    cases (Parser.kind .rightBracket : LineParser String).read calls middle <;> rfl
  | mismatch => rfl
  | tooDeep => rfl

/-- The first lexeme decides which kind of value follows. -/
theorem read_valueRule_cons (lexeme : Lexeme Symbol) (rest : List (Lexeme Symbol)) :
    valueRule.read calls (lexeme :: rest) =
      if lexeme.kind = .quoted then .matched [lexeme] (.text lexeme.text) rest
      else if lexeme.kind = .leftBrace then tupleValue.read calls (lexeme :: rest)
      else if lexeme.kind = .leftBracket then listValue.read calls (lexeme :: rest)
      else .mismatch := by
  have hquoted : ((Parser.kind .quoted : LineParser String).map Value.text).read calls
      (lexeme :: rest) =
        if lexeme.kind = .quoted then .matched [lexeme] (.text lexeme.text) rest
        else .mismatch := by
    rw [Parser.read_map, Parser.read_kind_cons]
    split_ifs <;> rfl
  rw [valueRule]
  split_ifs with h h' h''
  · rw [if_pos h] at hquoted
    exact Parser.read_either_of_matched (Parser.read_either_of_matched hquoted)
  · rw [if_neg h] at hquoted
    have hlist : listValue.read calls (lexeme :: rest) = .mismatch :=
      read_listValue_of_mismatch (by simp [h']) rest
    rw [Parser.read_either_of_second_mismatch hlist, Parser.read_either_of_mismatch hquoted]
  · rw [if_neg h] at hquoted
    have htuple : tupleValue.read calls (lexeme :: rest) = .mismatch :=
      read_tupleValue_of_mismatch h' rest
    rw [Parser.read_either_of_mismatch]
    rw [Parser.read_either_of_mismatch hquoted, htuple]
  · rw [if_neg h] at hquoted
    have hlist : listValue.read calls (lexeme :: rest) = .mismatch :=
      read_listValue_of_mismatch h'' rest
    have htuple : tupleValue.read calls (lexeme :: rest) = .mismatch :=
      read_tupleValue_of_mismatch h' rest
    rw [Parser.read_either_of_second_mismatch hlist, Parser.read_either_of_mismatch hquoted, htuple]

/-- A value begins with a string, a brace or a bracket. -/
theorem read_valueRule_of_mismatch {lexeme : Lexeme Symbol} (hquoted : lexeme.kind ≠ .quoted)
    (hbrace : lexeme.kind ≠ .leftBrace) (hbracket : lexeme.kind ≠ .leftBracket)
    (rest : List (Lexeme Symbol)) : valueRule.read calls (lexeme :: rest) = .mismatch := by
  rw [read_valueRule_cons, if_neg hquoted, if_neg hbrace, if_neg hbracket]

/-- A tuple is read from brace to brace if what stands between them is. -/
theorem read_valueRule_tuple {opening closing : Lexeme Symbol} {inner rest : List (Lexeme Symbol)}
    {found : Option (List (String × Value))} (hopening : opening.kind = .leftBrace)
    (hclosing : closing.kind = .rightBrace)
    (hinner : namedValues.optional.read calls (inner ++ closing :: rest) =
      .matched inner found (closing :: rest)) :
    valueRule.read calls (opening :: (inner ++ [closing]) ++ rest) =
      .matched (opening :: (inner ++ [closing])) (.tuple (.ofList (found.getD []))) rest := by
  rw [List.cons_append, List.append_assoc, List.singleton_append, read_valueRule_cons,
    if_neg (by simp [hopening]), if_pos hopening, read_tupleValue_cons hopening, hinner,
    Reading.bind_matched, Parser.read_kind_cons, if_pos hclosing, Reading.bind_matched]

/-- A list is read from bracket to bracket if what stands between them is. -/
theorem read_valueRule_list {opening closing : Lexeme Symbol} {inner rest : List (Lexeme Symbol)}
    {found : Option Value} (hopening : opening.kind = .leftBracket)
    (hclosing : closing.kind = .rightBracket)
    (hinner : listItems.optional.read calls (inner ++ closing :: rest) =
      .matched inner found (closing :: rest)) :
    valueRule.read calls (opening :: (inner ++ [closing]) ++ rest) =
      .matched (opening :: (inner ++ [closing])) (found.getD (.values [])) rest := by
  rw [List.cons_append, List.append_assoc, List.singleton_append, read_valueRule_cons,
    if_neg (by simp [hopening]), if_neg (by simp [hopening]), if_pos hopening,
    read_listValue_cons hopening, hinner, Reading.bind_matched, Parser.read_kind_cons,
    if_pos hclosing, Reading.bind_matched]

/-- Named values begin with a name. -/
theorem read_namedValues_of_mismatch {lexeme : Lexeme Symbol} (h : lexeme.kind ≠ .identifier)
    (rest : List (Lexeme Symbol)) : namedValues.read calls (lexeme :: rest) = .mismatch :=
  Parser.read_separatedBy_of_mismatch (read_namedValue_of_mismatch h rest)

end Values

/-! ### Completeness for values -/

/-- The parser of a nonterminal symbol. -/
def Nonterminal.parser : (n : Nonterminal) → LineParser n.Meaning
  | .value => Record.value
  | .values => Record.bareValues
  | .namedValue => Record.namedValue
  | .namedValues => Record.namedValues

/-- To read a value takes a level of depth. -/
theorem read_value (depth : Nat) (lexemes : List (Lexeme Symbol)) :
    Nonterminal.value.parser.read (grammar.read (depth + 1)) lexemes =
      valueRule.read (grammar.read depth) lexemes := rfl

/-- Whether a list ends before some lexemes, in that no comma comes first. -/
def Nonterminal.EndsBefore : Nonterminal → List (Lexeme Symbol) → Prop
  | .value, _ | .namedValue, _ => True
  | .values, rest | .namedValues, rest => ∀ lexeme, rest.head? = some lexeme → lexeme.kind ≠ .comma

/-- The kinds of lexemes that a derivation can begin with. -/
def Nonterminal.Begins : Nonterminal → Symbol → Prop
  | .value, kind | .values, kind => kind = .quoted ∨ kind = .leftBrace ∨ kind = .leftBracket
  | .namedValue, kind | .namedValues, kind => kind = .identifier

/-- What is derived begins with a lexeme of the right kind, so it is not empty. -/
theorem Derives.begins {n : Nonterminal} {lexemes : List (Lexeme Symbol)} {meaning : n.Meaning}
    (h : Derives n lexemes meaning) :
    ∃ first rest, lexemes = first :: rest ∧ n.Begins first.kind := by
  induction h with
  | text hquoted => exact ⟨_, _, rfl, Or.inl hquoted⟩
  | emptyTuple hopening _ => exact ⟨_, _, rfl, Or.inr (Or.inl hopening)⟩
  | tuple hopening _ _ _ _ => exact ⟨_, _, rfl, Or.inr (Or.inl hopening)⟩
  | emptyList hopening _ => exact ⟨_, _, rfl, Or.inr (Or.inr hopening)⟩
  | bareList hopening _ _ _ => exact ⟨_, _, rfl, Or.inr (Or.inr hopening)⟩
  | namedList hopening _ _ _ => exact ⟨_, _, rfl, Or.inr (Or.inr hopening)⟩
  | lastValue _ ih => exact ih
  | moreValues _ _ _ ih _ =>
    obtain ⟨first, rest, rfl, hbegins⟩ := ih
    exact ⟨first, _, rfl, hbegins⟩
  | namedValue hname _ _ _ => exact ⟨_, _, rfl, hname⟩
  | lastNamedValue _ ih => exact ih
  | moreNamedValues _ _ _ ih _ =>
    obtain ⟨first, rest, rfl, hbegins⟩ := ih
    exact ⟨first, _, rfl, hbegins⟩

/-- Bare values begin as a value does. -/
theorem read_bareValues_of_mismatch {lexeme : Lexeme Symbol}
    (h : ¬ Nonterminal.values.Begins lexeme.kind) (depth : Nat) (rest : List (Lexeme Symbol)) :
    bareValues.read (grammar.read (depth + 1)) (lexeme :: rest) = .mismatch := by
  have hkinds := not_or.mp h
  refine Parser.read_separatedBy_of_mismatch ((read_value depth _).trans ?_)
  exact read_valueRule_of_mismatch hkinds.1 (not_or.mp hkinds.2).1 (not_or.mp hkinds.2).2 rest

/-- Whether lexemes are read as a whole, whatever follows them, if there is depth enough. -/
def Nonterminal.Reads (n : Nonterminal) (lexemes : List (Lexeme Symbol)) (meaning : n.Meaning) :
    Prop :=
  ∀ (depth : Nat) (rest : List (Lexeme Symbol)), lexemes.length ≤ depth → n.EndsBefore rest →
    n.parser.read (grammar.read depth) (lexemes ++ rest) = .matched lexemes meaning rest

/-! One lemma for each production. A bracket or brace takes a level of depth, and is a lexeme
itself. -/

section Productions

variable {opening closing comma : Lexeme Symbol} {inner item others : List (Lexeme Symbol)}
  {v : Value} {items values : List Value} {pair : String × Value} {pairs : List (String × Value)}

theorem reads_text {quoted : Lexeme Symbol} (h : quoted.kind = .quoted) :
    Nonterminal.value.Reads [quoted] (.text quoted.text) := by
  rintro (_ | depth) rest hdepth _
  · simp at hdepth
  · rw [read_value, List.singleton_append, read_valueRule_cons, if_pos h]

/-- The closing brace is no named value, so the tuple is empty. -/
theorem reads_emptyTuple (hopening : opening.kind = .leftBrace)
    (hclosing : closing.kind = .rightBrace) :
    Nonterminal.value.Reads [opening, closing] (.tuple .empty) := by
  rintro (_ | depth) rest hdepth _
  · simp at hdepth
  · have hnone : namedValues.read (grammar.read depth) (closing :: rest) = .mismatch :=
      read_namedValues_of_mismatch (by simp [hclosing]) rest
    rw [read_value]
    exact read_valueRule_tuple hopening hclosing (Parser.read_optional_of_mismatch hnone)

theorem reads_tuple {fields : Fields} (hopening : opening.kind = .leftBrace)
    (hinner : Nonterminal.namedValues.Reads inner pairs) (hclosing : closing.kind = .rightBrace)
    (hcollapses : NamedTable.Collapses pairs fields) :
    Nonterminal.value.Reads (opening :: (inner ++ [closing])) (.tuple fields) := by
  rintro (_ | depth) rest hdepth _
  · simp at hdepth
  · simp only [List.length_cons, List.length_append, List.length_nil] at hdepth
    have hpairs :=
      hinner depth (closing :: rest) (by omega) (by simp [Nonterminal.EndsBefore, hclosing])
    rw [NamedTable.collapses_iff.mp hcollapses, read_value]
    exact read_valueRule_tuple hopening hclosing (Parser.read_optional_of_matched hpairs)

/-- The closing bracket is neither a value nor a named value, so the list is empty. -/
theorem reads_emptyList (hopening : opening.kind = .leftBracket)
    (hclosing : closing.kind = .rightBracket) :
    Nonterminal.value.Reads [opening, closing] (.values []) := by
  rintro (_ | _ | depth) rest hdepth _
  · simp at hdepth
  · simp at hdepth
  · have hbare : bareValues.read (grammar.read (depth + 1)) (closing :: rest) = .mismatch :=
      read_bareValues_of_mismatch (by simp [Nonterminal.Begins, hclosing]) depth rest
    have hnamed : namedValues.read (grammar.read (depth + 1)) (closing :: rest) = .mismatch :=
      read_namedValues_of_mismatch (by simp [hclosing]) rest
    have hnone : listItems.read (grammar.read (depth + 1)) (closing :: rest) = .mismatch := by
      rw [listItems, Parser.read_either_of_mismatch, Parser.read_map, hnamed]
      · rfl
      · rw [Parser.read_map, hbare]
        rfl
    rw [read_value]
    exact read_valueRule_list hopening hclosing (Parser.read_optional_of_mismatch hnone)

/-- Bare values are tried first. -/
theorem reads_bareList (hopening : opening.kind = .leftBracket)
    (hinner : Nonterminal.values.Reads inner items) (hclosing : closing.kind = .rightBracket) :
    Nonterminal.value.Reads (opening :: (inner ++ [closing])) (.values items) := by
  rintro (_ | depth) rest hdepth _
  · simp at hdepth
  · simp only [List.length_cons, List.length_append, List.length_nil] at hdepth
    have hvalues :=
      hinner depth (closing :: rest) (by omega) (by simp [Nonterminal.EndsBefore, hclosing])
    have hitems : listItems.read (grammar.read depth) (inner ++ closing :: rest) =
        .matched inner (.values items) (closing :: rest) := by
      refine Parser.read_either_of_matched ?_
      rw [Parser.read_map]
      show (Nonterminal.values.parser.read _ _).bind _ = _
      rw [hvalues, Reading.bind_matched]
    rw [read_value]
    exact read_valueRule_list hopening hclosing (Parser.read_optional_of_matched hitems)

/-- Named values begin with a name, so they are not taken for bare values. -/
theorem reads_namedList (hopening : opening.kind = .leftBracket)
    (hderives : Derives .namedValues inner pairs)
    (hinner : Nonterminal.namedValues.Reads inner pairs)
    (hclosing : closing.kind = .rightBracket) :
    Nonterminal.value.Reads (opening :: (inner ++ [closing])) (.results pairs) := by
  rintro (_ | _ | depth) rest hdepth _
  · simp at hdepth
  · simp at hdepth
  · simp only [List.length_cons, List.length_append, List.length_nil] at hdepth
    have hpairs := hinner (depth + 1) (closing :: rest) (by omega)
      (by simp [Nonterminal.EndsBefore, hclosing])
    have hitems : listItems.read (grammar.read (depth + 1)) (inner ++ closing :: rest) =
        .matched inner (.results pairs) (closing :: rest) := by
      obtain ⟨first, others, rfl, hbegins⟩ := hderives.begins
      have hname : first.kind = .identifier := hbegins
      have hbare : bareValues.read (grammar.read (depth + 1))
          (first :: (others ++ closing :: rest)) = .mismatch :=
        read_bareValues_of_mismatch (by simp [Nonterminal.Begins, hname]) depth _
      rw [listItems, Parser.read_either_of_mismatch, Parser.read_map]
      · show (Nonterminal.namedValues.parser.read _ _).bind _ = _
        rw [hpairs, Reading.bind_matched]
      · rw [Parser.read_map, List.cons_append, hbare]
        rfl
    rw [read_value]
    exact read_valueRule_list hopening hclosing (Parser.read_optional_of_matched hitems)

theorem reads_lastValue (hitem : Nonterminal.value.Reads item v) :
    Nonterminal.values.Reads item [v] := by
  intro depth rest hdepth hends
  exact Parser.read_separatedBy_last (hitem depth rest hdepth trivial)
    (Parser.read_kind_of_ne hends)

/-- A comma ends the first of several values. -/
theorem reads_moreValues (hitem : Nonterminal.value.Reads item v) (hcomma : comma.kind = .comma)
    (hothers : Nonterminal.values.Reads others values) :
    Nonterminal.values.Reads (item ++ [comma] ++ others) (v :: values) := by
  intro depth rest hdepth hends
  simp only [List.length_append, List.length_cons, List.length_nil] at hdepth
  exact Parser.read_separatedBy_kind (grammar.read_splits depth) hcomma
    (hitem depth _ (by omega) trivial) (hothers depth rest (by omega) hends)

/-- A named value is its name and equals sign, and a value behind them. -/
theorem reads_namedValue {name equals : Lexeme Symbol} (hname : name.kind = .identifier)
    (hequals : equals.kind = .equals) (hinner : Nonterminal.value.Reads inner v) :
    Nonterminal.namedValue.Reads (name :: equals :: inner) (name.text, v) := by
  intro depth rest hdepth _
  simp only [List.length_cons] at hdepth
  have hvalue := hinner depth rest (by omega) trivial
  show Record.namedValue.read _ (name :: equals :: (inner ++ rest)) = _
  rw [read_namedValue_cons hname hequals]
  show (Nonterminal.value.parser.read _ _).bind _ = _
  rw [hvalue, Reading.bind_matched]

theorem reads_lastNamedValue (hitem : Nonterminal.namedValue.Reads item pair) :
    Nonterminal.namedValues.Reads item [pair] := by
  intro depth rest hdepth hends
  exact Parser.read_separatedBy_last (hitem depth rest hdepth trivial)
    (Parser.read_kind_of_ne hends)

/-- A comma ends the first of several named values. -/
theorem reads_moreNamedValues (hitem : Nonterminal.namedValue.Reads item pair)
    (hcomma : comma.kind = .comma) (hothers : Nonterminal.namedValues.Reads others pairs) :
    Nonterminal.namedValues.Reads (item ++ [comma] ++ others) (pair :: pairs) := by
  intro depth rest hdepth hends
  simp only [List.length_append, List.length_cons, List.length_nil] at hdepth
  exact Parser.read_separatedBy_kind (grammar.read_splits depth) hcomma
    (hitem depth _ (by omega) trivial) (hothers depth rest (by omega) hends)

end Productions

/-- What is derived is read as a whole, whatever follows it, if there is depth enough. -/
theorem read_of_derives {n : Nonterminal} {lexemes : List (Lexeme Symbol)} {meaning : n.Meaning}
    (h : Derives n lexemes meaning) : n.Reads lexemes meaning := by
  induction h with
  | text hquoted => exact reads_text hquoted
  | emptyTuple hopening hclosing => exact reads_emptyTuple hopening hclosing
  | tuple hopening _ hclosing hcollapses ih => exact reads_tuple hopening ih hclosing hcollapses
  | emptyList hopening hclosing => exact reads_emptyList hopening hclosing
  | bareList hopening _ hclosing ih => exact reads_bareList hopening ih hclosing
  | namedList hopening hderives hclosing ih => exact reads_namedList hopening hderives ih hclosing
  | lastValue _ ih => exact reads_lastValue ih
  | moreValues _ hcomma _ ihItem ihOthers => exact reads_moreValues ihItem hcomma ihOthers
  | namedValue hname hequals _ ih => exact reads_namedValue hname hequals ih
  | lastNamedValue _ ih => exact reads_lastNamedValue ih
  | moreNamedValues _ hcomma _ ihItem ihOthers =>
    exact reads_moreNamedValues ihItem hcomma ihOthers

/-! ### Soundness for values -/

/-- The separator of all lists. -/
def IsComma (lexemes : List (Lexeme Symbol)) : Prop :=
  ∃ comma, comma.kind = .comma ∧ lexemes = [comma]

/-- Values with commas between them are derived. -/
theorem derives_values_of_separated {lexemes : List (Lexeme Symbol)} {items : List Value}
    (h : Parser.Separated (Derives .value) IsComma lexemes items) :
    Derives .values lexemes items := by
  induction h with
  | last hitem => exact .lastValue hitem
  | more hitem hseparator _ ih =>
    obtain ⟨comma, hcomma, rfl⟩ := hseparator
    exact .moreValues hitem hcomma ih

/-- Named values with commas between them are derived. -/
theorem derives_namedValues_of_separated {lexemes : List (Lexeme Symbol)}
    {pairs : List (String × Value)}
    (h : Parser.Separated (Derives .namedValue) IsComma lexemes pairs) :
    Derives .namedValues lexemes pairs := by
  induction h with
  | last hitem => exact .lastNamedValue hitem
  | more hitem hseparator _ ih =>
    obtain ⟨comma, hcomma, rfl⟩ := hseparator
    exact .moreNamedValues hitem hcomma ih

section Soundness

variable {calls : (rule : Unit) → Reader (Lexeme Symbol) (ValueRule rule)}
  {lexemes first rest : List (Lexeme Symbol)}

/-- What is read as a comma is one. -/
theorem isComma_of_read {text : String}
    (h : (Parser.kind .comma : LineParser String).read calls lexemes = .matched first text rest) :
    IsComma first := by
  obtain ⟨comma, hcomma, rfl, -, -⟩ := Parser.read_kind_eq_matched h
  exact ⟨comma, hcomma, rfl⟩

variable (hcalls : ∀ {lexemes first rest : List (Lexeme Symbol)} {v : Value},
  value.read calls lexemes = .matched first v rest → Derives .value first v)

include hcalls

/-- What is read as a named value is derived if what is read as a value is. -/
theorem derives_of_read_namedValue {pair : String × Value}
    (h : namedValue.read calls lexemes = .matched first pair rest) :
    Derives .namedValue first pair := by
  rw [namedValue, Parser.read_both, Parser.read_thenSkip, Reading.bind_eq_matched_iff] at h
  obtain ⟨before, name, middle, hbefore, h⟩ := h
  obtain ⟨name, text, between, hname, hbefore⟩ := Reading.bind_eq_matched_iff.mp hbefore
  obtain ⟨equals, mark, left, hequals, heq⟩ := Reading.bind_eq_matched_iff.mp hbefore
  obtain ⟨inner, v, last, hvalue, heq'⟩ := Reading.bind_eq_matched_iff.mp h
  obtain ⟨name, hidentifier, rfl, rfl, -⟩ := Parser.read_kind_eq_matched hname
  obtain ⟨equals, hmark, rfl, -, -⟩ := Parser.read_kind_eq_matched hequals
  cases heq
  cases heq'
  exact .namedValue hidentifier hmark (hcalls hvalue)

/-- What is read as named values is derived if what is read as a value is. -/
theorem derives_of_read_namedValues {pairs : List (String × Value)}
    (h : namedValues.read calls lexemes = .matched first pairs rest) :
    Derives .namedValues first pairs :=
  derives_namedValues_of_separated <|
    Parser.separated_of_read_separatedBy (derives_of_read_namedValue hcalls) isComma_of_read h

/-- What is read as bare values is derived if what is read as a value is. -/
theorem derives_of_read_bareValues {items : List Value}
    (h : bareValues.read calls lexemes = .matched first items rest) :
    Derives .values first items :=
  derives_values_of_separated (Parser.separated_of_read_separatedBy hcalls isComma_of_read h)

/-- What is read as a tuple is derived, with the names that are repeated collapsed. -/
theorem derives_of_read_tupleValue {opening : Lexeme Symbol} (hopening : opening.kind = .leftBrace)
    {v : Value} (h : tupleValue.read calls (opening :: lexemes) = .matched first v rest) :
    Derives .value first v := by
  rw [read_tupleValue_cons hopening, Reading.bind_eq_matched_iff] at h
  obtain ⟨inner, found, middle, hinner, h⟩ := h
  obtain ⟨closing, mark, last, hclosing, heq⟩ := Reading.bind_eq_matched_iff.mp h
  obtain ⟨closing, hkind, rfl, -, -⟩ := Parser.read_kind_eq_matched hclosing
  cases heq
  rcases Parser.read_optional_eq_matched hinner with ⟨pairs, rfl, hpairs⟩ | ⟨rfl, rfl, -⟩
  · exact .tuple hopening (derives_of_read_namedValues hcalls hpairs) hkind
      (NamedTable.collapses_ofList pairs)
  · exact .emptyTuple hopening hkind

/-- What is read as a list is derived, whether its items have names or not. -/
theorem derives_of_read_listValue {opening : Lexeme Symbol}
    (hopening : opening.kind = .leftBracket) {v : Value}
    (h : listValue.read calls (opening :: lexemes) = .matched first v rest) :
    Derives .value first v := by
  rw [read_listValue_cons hopening, Reading.bind_eq_matched_iff] at h
  obtain ⟨inner, found, middle, hinner, h⟩ := h
  obtain ⟨closing, mark, last, hclosing, heq⟩ := Reading.bind_eq_matched_iff.mp h
  obtain ⟨closing, hkind, rfl, -, -⟩ := Parser.read_kind_eq_matched hclosing
  cases heq
  rcases Parser.read_optional_eq_matched hinner with ⟨items, rfl, hitems⟩ | ⟨rfl, rfl, -⟩
  · rcases Parser.read_either_eq_matched hitems with hbare | hnamed
    · rw [Parser.read_map, Reading.bind_eq_matched_iff] at hbare
      obtain ⟨read, values, left, hvalues, heq⟩ := hbare
      cases heq
      exact .bareList hopening (derives_of_read_bareValues hcalls hvalues) hkind
    · rw [Parser.read_map, Reading.bind_eq_matched_iff] at hnamed
      obtain ⟨read, pairs, left, hpairs, heq⟩ := hnamed
      cases heq
      exact .namedList hopening (derives_of_read_namedValues hcalls hpairs) hkind
  · exact .emptyList hopening hkind

/-- What the rule for values matches is derived if what its calls match is. -/
theorem derives_of_read_valueRule {v : Value}
    (h : valueRule.read calls lexemes = .matched first v rest) : Derives .value first v := by
  cases lexemes with
  | nil => cases h
  | cons lexeme others =>
    rw [read_valueRule_cons] at h
    split_ifs at h with hquoted hbrace hbracket
    · cases h
      exact .text hquoted
    · exact derives_of_read_tupleValue hcalls hbrace h
    · exact derives_of_read_listValue hcalls hbracket h

end Soundness

/-- Whatever the rule for values matches, at any depth, is derived. -/
theorem derives_of_read (depth : Nat) {lexemes first rest : List (Lexeme Symbol)} {v : Value}
    (h : value.read (grammar.read depth) lexemes = .matched first v rest) :
    Derives .value first v := by
  induction depth generalizing lexemes first rest v with
  | zero => cases h
  | succ depth ih => exact derives_of_read_valueRule ih h

end Record

end DebugLink
