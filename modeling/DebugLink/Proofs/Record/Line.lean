import DebugLink.Proofs.Record.Derivation
import DebugLink.Proofs.Text.Numeral

/-!
The language of lines. `read_anyRecord_of_derives` and `derivesRecord_of_read` are completeness and
soundness of the parser for records; together they say that the record found in the lexemes of a
line is the one that they derive, and that none is found only if they derive none
(`ofLexemes?_eq_some_iff`).

All of this takes the lexemes as given, apart from one thing that every lexer of lines provides: a
number is spelled by digits (`NumbersSpelled`).
-/

set_option autoImplicit false

namespace DebugLink

/-- The notice that a mark announces. -/
def Symbol.notice? : Symbol → Option Notice
  | .star => some .exec
  | .equals => some .notify
  | .plus => some .status
  | _ => none

/-- The channel that a mark announces. -/
def Symbol.channel? : Symbol → Option Channel
  | .tilde => some .console
  | .at => some .target
  | .ampersand => some .log
  | _ => none

/-- A notice is announced by its mark only. -/
theorem Symbol.notice?_eq_some_iff {mark : Symbol} {notice : Notice} :
    mark.notice? = some notice ↔ mark = notice.mark := by
  cases mark <;> cases notice <;> simp [notice?, Notice.mark]

/-- A channel is announced by its mark only. -/
theorem Symbol.channel?_eq_some_iff {mark : Symbol} {channel : Channel} :
    mark.channel? = some channel ↔ mark = channel.mark := by
  cases mark <;> cases channel <;> simp [channel?, Channel.mark]

namespace Record

variable {calls : (rule : Unit) → Reader (Lexeme Symbol) (ValueRule rule)}
  {lexemes digits first others rest : List (Lexeme Symbol)} {mark cls : Lexeme Symbol}

/-! ### Tokens -/

/-- Every number among the lexemes is spelled by decimal digits, of which there is at least one. -/
def NumbersSpelled (lexemes : List (Lexeme Symbol)) : Prop :=
  ∀ lexeme ∈ lexemes, lexeme.kind = .number →
    lexeme.text.toList ≠ [] ∧ ∀ c ∈ lexeme.text.toList, c.isDigit = true

/-- A number in digits derives the token that it is read as. -/
theorem derivesToken_iff {number : Lexeme Symbol} (hkind : number.kind = .number)
    (hspelled : NumbersSpelled [number]) {token : Option Token} :
    DerivesToken [number] token ↔ tokenOf (some number.text) = token := by
  obtain ⟨hne, hdigits⟩ := hspelled number List.mem_cons_self hkind
  have hword : tokenOf (some number.text) = Numeral.word64? number.text := rfl
  rw [hword, Numeral.word64?_of_isDigit hne hdigits]
  constructor
  · intro h
    cases h with
    | @spelled _ token _ htoken =>
      rw [← htoken, if_pos token.toNat_lt, UInt64.ofNat_toNat]
    | tooLarge _ hlarge => rw [if_neg (Nat.not_lt.mpr hlarge)]
  · rintro rfl
    split_ifs with hfits
    · exact .spelled hkind (UInt64.toNat_ofNat_of_lt' hfits)
    · exact .tooLarge hkind (Nat.not_lt.mp hfits)

/-- Digits that derive a token are read as that token. -/
theorem read_tokenDigits_of_derives {token : Option Token} (h : DerivesToken digits token)
    (hspelled : NumbersSpelled digits) (hmark : mark.kind ≠ .number) :
    ∃ found, tokenDigits.read calls (digits ++ mark :: rest) =
      .matched digits found (mark :: rest) ∧ tokenOf found = token := by
  have hread : ∀ {number : Lexeme Symbol}, number.kind = .number →
      tokenDigits.read calls ([number] ++ mark :: rest) =
        .matched [number] (some number.text) (mark :: rest) := by
    intro number hkind
    refine Parser.read_optional_of_matched ?_
    rw [List.singleton_append, Parser.read_kind_cons, if_pos hkind]
  cases h with
  | missing =>
    refine ⟨none, Parser.read_optional_of_mismatch ?_, rfl⟩
    rw [List.nil_append, Parser.read_kind_cons, if_neg hmark]
  | spelled hkind htoken =>
    exact ⟨_, hread hkind, (derivesToken_iff hkind hspelled).mp (.spelled hkind htoken)⟩
  | tooLarge hkind hlarge =>
    exact ⟨_, hread hkind, (derivesToken_iff hkind hspelled).mp (.tooLarge hkind hlarge)⟩

/-- Digits that are read derive the token that they are read as. -/
theorem derivesToken_of_read {found : Option String} (hspelled : NumbersSpelled lexemes)
    (h : tokenDigits.read calls lexemes = .matched digits found rest) :
    DerivesToken digits (tokenOf found) := by
  rcases Parser.read_optional_eq_matched h with ⟨text, rfl, hnumber⟩ | ⟨rfl, rfl, -⟩
  · obtain ⟨number, hkind, rfl, rfl, rfl⟩ := Parser.read_kind_eq_matched hnumber
    refine (derivesToken_iff hkind fun lexeme hmem ↦ ?_).mpr rfl
    exact hspelled lexeme (List.mem_cons.mpr (Or.inl (List.mem_singleton.mp hmem)))
  · exact .missing

/-! ### Marks and fields -/

/-- The first lexeme decides which notice is announced, if any. -/
theorem read_noticeMark_cons :
    noticeMark.read calls (mark :: rest) =
      mark.kind.notice?.elim .mismatch fun notice ↦ .matched [mark] notice rest := by
  obtain ⟨kind, text, offset⟩ := mark
  cases kind <;> rfl

/-- The first lexeme decides which channel is announced, if any. -/
theorem read_channelMark_cons :
    channelMark.read calls (mark :: rest) =
      mark.kind.channel?.elim .mismatch fun channel ↦ .matched [mark] channel rest := by
  obtain ⟨kind, text, offset⟩ := mark
  cases kind <;> rfl

/-- A parser that decides by the kind of the first lexeme has read that lexeme. -/
theorem exists_mark_of_read {α : Type} {p : LineParser α} (meaning? : Symbol → Option α)
    {value : α} (hnil : p.read calls [] = .mismatch)
    (hcons : ∀ mark rest, p.read calls (mark :: rest) =
      (meaning? mark.kind).elim .mismatch fun value ↦ .matched [mark] value rest)
    (h : p.read calls lexemes = .matched first value rest) :
    ∃ mark, meaning? mark.kind = some value ∧ first = [mark] := by
  cases lexemes with
  | nil => nomatch hnil.symm.trans h
  | cons mark others =>
    rw [hcons] at h
    cases hkind : meaning? mark.kind with
    | none => simp [hkind] at h
    | some found =>
      rw [hkind] at h
      obtain ⟨rfl, rfl, -⟩ := Reading.matched.inj h
      exact ⟨mark, hkind, rfl⟩

/-- The mark of a notice is one lexeme. -/
theorem read_noticeMark_eq_matched {notice : Notice}
    (h : noticeMark.read calls lexemes = .matched first notice rest) :
    ∃ mark, mark.kind = notice.mark ∧ first = [mark] := by
  obtain ⟨mark, hnotice, hfirst⟩ := exists_mark_of_read Symbol.notice? rfl
    (fun _ _ ↦ read_noticeMark_cons) h
  exact ⟨mark, Symbol.notice?_eq_some_iff.mp hnotice, hfirst⟩

/-- The mark of a channel is one lexeme. -/
theorem read_channelMark_eq_matched {channel : Channel}
    (h : channelMark.read calls lexemes = .matched first channel rest) :
    ∃ mark, mark.kind = channel.mark ∧ first = [mark] := by
  obtain ⟨mark, hchannel, hfirst⟩ := exists_mark_of_read Symbol.channel? rfl
    (fun _ _ ↦ read_channelMark_cons) h
  exact ⟨mark, Symbol.channel?_eq_some_iff.mp hchannel, hfirst⟩

/-- Fields that are derived are read, if the depth is no less than their number of lexemes. -/
theorem read_trailingFields_of_derives {fields : Fields} (h : DerivesFields others fields)
    {depth : Nat} (hdepth : others.length ≤ depth)
    (hends : Nonterminal.namedValues.EndsBefore rest) :
    trailingFields.read (grammar.read depth) (others ++ rest) = .matched others fields rest := by
  cases h with
  | missing =>
    have hnone : ((Parser.kind .comma : LineParser String).skipThen namedValues).read
        (grammar.read depth) rest = .mismatch := by
      rw [Parser.read_skipThen, Parser.read_kind_of_ne hends]
      rfl
    rw [trailingFields, Parser.read_map, List.nil_append, Parser.read_optional_of_mismatch hnone]
    rfl
  | @listed comma inner pairs fields hcomma hpairs hcollapses =>
    rw [List.length_cons] at hdepth
    have hinner := read_of_derives hpairs depth rest (by omega) hends
    have hsome : ((Parser.kind .comma : LineParser String).skipThen namedValues).read
        (grammar.read depth) (comma :: inner ++ rest) = .matched (comma :: inner) pairs rest := by
      rw [Parser.read_skipThen, List.cons_append, Parser.read_kind_cons, if_pos hcomma,
        Reading.bind_matched]
      show (Nonterminal.namedValues.parser.read _ _).bind _ = _
      rw [hinner]
      rfl
    rw [trailingFields, Parser.read_map, Parser.read_optional_of_matched hsome,
      NamedTable.collapses_iff.mp hcollapses]
    rfl

/-- Fields that are read are derived. -/
theorem derivesFields_of_read {depth : Nat} {fields : Fields}
    (h : trailingFields.read (grammar.read depth) lexemes = .matched first fields rest) :
    DerivesFields first fields := by
  rw [trailingFields, Parser.read_map, Reading.bind_eq_matched_iff] at h
  obtain ⟨read, found, left, hfound, heq⟩ := h
  cases heq
  rcases Parser.read_optional_eq_matched hfound with ⟨pairs, rfl, hpairs⟩ | ⟨rfl, rfl, -⟩
  · rw [Parser.read_skipThen, Reading.bind_eq_matched_iff] at hpairs
    obtain ⟨before, text, middle, hcomma, hpairs⟩ := hpairs
    obtain ⟨inner, named, last, hnamed, heq⟩ := Reading.bind_eq_matched_iff.mp hpairs
    obtain ⟨comma, hkind, rfl, -, -⟩ := Parser.read_kind_eq_matched hcomma
    cases heq
    exact .listed hkind (derives_of_read_namedValues (derives_of_read depth) hnamed)
      (NamedTable.collapses_ofList pairs)
  · exact .missing

/-! ### Records -/

/-- The parts of a notice make up a record that is read. -/
theorem read_asyncRecord_of_derives {notice : Notice} {token : Option Token} {fields : Fields}
    {depth : Nat} (htoken : DerivesToken digits token) (hspelled : NumbersSpelled digits)
    (hmark : mark.kind = notice.mark) (hcls : cls.kind = .identifier)
    (hfields : DerivesFields others fields) (hdepth : others.length ≤ depth)
    (hends : Nonterminal.namedValues.EndsBefore rest) :
    asyncRecord.read (grammar.read depth) (digits ++ mark :: cls :: (others ++ rest)) =
      .matched (digits ++ mark :: cls :: others) (.async notice token cls.text fields) rest := by
  have hnotice := Symbol.notice?_eq_some_iff.mpr hmark
  have hnumber : mark.kind ≠ .number := by
    rw [hmark]
    cases notice <;> simp [Notice.mark]
  obtain ⟨found, hread, rfl⟩ := read_tokenDigits_of_derives htoken hspelled hnumber
  rw [asyncRecord, Parser.read_map, Parser.read_both, Parser.read_both, Parser.read_both, hread]
  simp only [Reading.bind_matched, read_noticeMark_cons, hnotice, Option.elim_some,
    Parser.read_kind_cons, hcls, ↓reduceIte, read_trailingFields_of_derives hfields hdepth hends,
    List.append_assoc, List.cons_append, List.nil_append]

/-- The parts of a result make up a record that is read. -/
theorem read_resultRecord_of_derives {token : Option Token} {fields : Fields} {depth : Nat}
    (htoken : DerivesToken digits token) (hspelled : NumbersSpelled digits)
    (hmark : mark.kind = .caret) (hcls : cls.kind = .identifier)
    (hfields : DerivesFields others fields) (hdepth : others.length ≤ depth)
    (hends : Nonterminal.namedValues.EndsBefore rest) :
    resultRecord.read (grammar.read depth) (digits ++ mark :: cls :: (others ++ rest)) =
      .matched (digits ++ mark :: cls :: others) (.result token cls.text fields) rest := by
  have hnumber : mark.kind ≠ .number := by simp [hmark]
  obtain ⟨found, hread, rfl⟩ := read_tokenDigits_of_derives htoken hspelled hnumber
  rw [resultRecord, Parser.read_map, Parser.read_both, Parser.read_both, Parser.read_thenSkip,
    hread]
  simp only [Reading.bind_matched, Parser.read_kind_cons, hmark, hcls, ↓reduceIte,
    read_trailingFields_of_derives hfields hdepth hends, List.append_assoc, List.cons_append,
    List.nil_append]

/-- Without the mark of a notice no notice is read. -/
theorem read_asyncRecord_of_mismatch {token : Option Token} (htoken : DerivesToken digits token)
    (hspelled : NumbersSpelled digits) (hnumber : mark.kind ≠ .number)
    (hnotice : mark.kind.notice? = none) :
    asyncRecord.read calls (digits ++ mark :: rest) = .mismatch := by
  obtain ⟨found, hread, -⟩ := read_tokenDigits_of_derives htoken hspelled hnumber
  rw [asyncRecord, Parser.read_map, Parser.read_both, Parser.read_both, Parser.read_both, hread]
  simp only [Reading.bind_matched, read_noticeMark_cons, hnotice, Option.elim_none,
    Reading.bind_mismatch]

/-- Without a caret no result is read. -/
theorem read_resultRecord_of_mismatch {token : Option Token} (htoken : DerivesToken digits token)
    (hspelled : NumbersSpelled digits) (hnumber : mark.kind ≠ .number)
    (hmark : mark.kind ≠ .caret) :
    resultRecord.read calls (digits ++ mark :: rest) = .mismatch := by
  obtain ⟨found, hread, -⟩ := read_tokenDigits_of_derives htoken hspelled hnumber
  rw [resultRecord, Parser.read_map, Parser.read_both, Parser.read_both, Parser.read_thenSkip,
    hread]
  simp only [Reading.bind_matched, Parser.read_kind_cons, hmark, ↓reduceIte, Reading.bind_mismatch]

/-- Without the mark of a channel no output is read. -/
theorem read_streamRecord_of_mismatch {token : Option Token} (htoken : DerivesToken digits token)
    (hchannel : mark.kind.channel? = none) :
    streamRecord.read calls (digits ++ mark :: rest) = .mismatch := by
  have hfirst : ∀ {lexeme : Lexeme Symbol} {rest : List (Lexeme Symbol)},
      lexeme.kind.channel? = none → streamRecord.read calls (lexeme :: rest) = .mismatch := by
    intro lexeme rest hnone
    rw [streamRecord, Parser.read_map, Parser.read_both, read_channelMark_cons]
    simp only [hnone, Option.elim_none, Reading.bind_mismatch]
  cases htoken with
  | missing => exact hfirst hchannel
  | spelled hkind _ => exact hfirst (by rw [hkind]; rfl)
  | tooLarge hkind _ => exact hfirst (by rw [hkind]; rfl)

/-- A notice that is read is derived. -/
theorem derivesRecord_of_read_asyncRecord {depth : Nat} {record : Record}
    (hspelled : NumbersSpelled lexemes)
    (h : asyncRecord.read (grammar.read depth) lexemes = .matched first record rest) :
    DerivesRecord first record := by
  simp only [asyncRecord, Parser.read_map, Parser.read_both, Reading.bind_eq_matched_iff] at h
  obtain ⟨all, _, _, ⟨before, _, _, ⟨start, _, _, ⟨digits, found, _, hdigits, mark, notice, _,
    hmark, heq⟩, name, text, _, hname, heq'⟩, fields, table, _, hfields, heq''⟩, heq'''⟩ := h
  obtain ⟨mark, hkind, rfl⟩ := read_noticeMark_eq_matched hmark
  obtain ⟨cls, hcls, rfl, rfl, -⟩ := Parser.read_kind_eq_matched hname
  cases heq
  cases heq'
  cases heq''
  cases heq'''
  have hderives := DerivesRecord.async (derivesToken_of_read hspelled hdigits) hkind hcls
    (derivesFields_of_read hfields)
  simpa using hderives

/-- A result that is read is derived. -/
theorem derivesRecord_of_read_resultRecord {depth : Nat} {record : Record}
    (hspelled : NumbersSpelled lexemes)
    (h : resultRecord.read (grammar.read depth) lexemes = .matched first record rest) :
    DerivesRecord first record := by
  simp only [resultRecord, Parser.read_map, Parser.read_both, Parser.read_thenSkip,
    Reading.bind_eq_matched_iff] at h
  obtain ⟨all, _, _, ⟨before, _, _, ⟨start, _, _, ⟨digits, found, _, hdigits, mark, _, _, hmark,
    heq⟩, name, text, _, hname, heq'⟩, fields, table, _, hfields, heq''⟩, heq'''⟩ := h
  obtain ⟨mark, hkind, rfl, -, -⟩ := Parser.read_kind_eq_matched hmark
  obtain ⟨cls, hcls, rfl, rfl, -⟩ := Parser.read_kind_eq_matched hname
  cases heq
  cases heq'
  cases heq''
  cases heq'''
  have hderives := DerivesRecord.result (derivesToken_of_read hspelled hdigits) hkind hcls
    (derivesFields_of_read hfields)
  simpa using hderives

/-- Output that is read is derived. -/
theorem derivesRecord_of_read_streamRecord {record : Record}
    (h : streamRecord.read calls lexemes = .matched first record rest) :
    DerivesRecord first record := by
  simp only [streamRecord, Parser.read_map, Parser.read_both, Reading.bind_eq_matched_iff] at h
  obtain ⟨all, _, _, ⟨before, channel, _, hmark, quoted, text, _, hquoted, heq⟩, heq'⟩ := h
  obtain ⟨mark, hkind, rfl⟩ := read_channelMark_eq_matched hmark
  obtain ⟨quoted, hkind', rfl, rfl, -⟩ := Parser.read_kind_eq_matched hquoted
  cases heq
  cases heq'
  exact .stream hkind hkind'

/-- A prompt that is read is derived. -/
theorem derivesRecord_of_read_promptRecord {record : Record}
    (h : promptRecord.read calls lexemes = .matched first record rest) :
    DerivesRecord first record := by
  simp only [promptRecord, Parser.read_map, Reading.bind_eq_matched_iff] at h
  obtain ⟨mark, text, _, hmark, heq⟩ := h
  obtain ⟨mark, hkind, rfl, rfl, -⟩ := Parser.read_kind_eq_matched hmark
  cases heq
  exact .prompt hkind

/-! ### Lines -/

/-- A record of any kind. -/
def anyRecord : LineParser Record :=
  ((asyncRecord.either streamRecord).either resultRecord).either promptRecord

/-- Every record that is derived is read. By cases on its kind, since the alternatives before it
must fail. -/
theorem read_anyRecord_of_derives {record : Record} {depth : Nat}
    (h : DerivesRecord lexemes record) (hspelled : NumbersSpelled lexemes)
    (hdepth : lexemes.length ≤ depth) (hends : Nonterminal.namedValues.EndsBefore rest) :
    anyRecord.read (grammar.read depth) (lexemes ++ rest) = .matched lexemes record rest := by
  cases h with
  | @async notice digits others mark cls token fields htoken hmark hcls hfields =>
    simp only [List.length_append, List.length_cons] at hdepth
    have hdigits : NumbersSpelled digits := fun lexeme hmem ↦
      hspelled lexeme (List.mem_append_left _ hmem)
    have hasync := read_asyncRecord_of_derives htoken hdigits hmark hcls hfields
      (by omega : others.length ≤ depth) hends
    rw [List.append_assoc, List.cons_append, List.cons_append]
    exact Parser.read_either_of_matched <| Parser.read_either_of_matched <|
      Parser.read_either_of_matched hasync
  | @stream channel mark quoted hmark hquoted =>
    have hchannel := Symbol.channel?_eq_some_iff.mpr hmark
    have hasync : asyncRecord.read (grammar.read depth) ([] ++ mark :: quoted :: rest) =
        .mismatch := by
      refine read_asyncRecord_of_mismatch .missing (fun _ hmem ↦ nomatch hmem) ?_ ?_
      · rw [hmark]
        cases channel <;> simp [Channel.mark]
      · rw [hmark]
        cases channel <;> rfl
    have hstream : streamRecord.read (grammar.read depth) (mark :: quoted :: rest) =
        .matched [mark, quoted] (.stream channel quoted.text) rest := by
      rw [streamRecord, Parser.read_map, Parser.read_both, read_channelMark_cons]
      simp only [hchannel, Option.elim_some, Reading.bind_matched, Parser.read_kind_cons, hquoted,
        ↓reduceIte]
      rfl
    refine Parser.read_either_of_matched (Parser.read_either_of_matched ?_)
    exact (Parser.read_either_of_mismatch hasync).trans hstream
  | @result digits others mark cls token fields htoken hmark hcls hfields =>
    simp only [List.length_append, List.length_cons] at hdepth
    have hdigits : NumbersSpelled digits := fun lexeme hmem ↦
      hspelled lexeme (List.mem_append_left _ hmem)
    have hasync : asyncRecord.read (grammar.read depth)
        (digits ++ mark :: cls :: (others ++ rest)) = .mismatch :=
      read_asyncRecord_of_mismatch htoken hdigits (by simp [hmark]) (by rw [hmark]; rfl)
    have hstream : streamRecord.read (grammar.read depth)
        (digits ++ mark :: cls :: (others ++ rest)) = .mismatch :=
      read_streamRecord_of_mismatch htoken (by rw [hmark]; rfl)
    have hresult := read_resultRecord_of_derives htoken hdigits hmark hcls hfields
      (by omega : others.length ≤ depth) hends
    rw [List.append_assoc, List.cons_append, List.cons_append]
    refine Parser.read_either_of_matched ?_
    rw [Parser.read_either_of_mismatch ((Parser.read_either_of_mismatch hasync).trans hstream)]
    exact hresult
  | @prompt mark hmark =>
    have hnone : NumbersSpelled [] := fun _ hmem ↦ nomatch hmem
    have hasync : asyncRecord.read (grammar.read depth) ([] ++ mark :: rest) = .mismatch :=
      read_asyncRecord_of_mismatch .missing hnone (by simp [hmark]) (by rw [hmark]; rfl)
    have hstream : streamRecord.read (grammar.read depth) ([] ++ mark :: rest) = .mismatch :=
      read_streamRecord_of_mismatch .missing (by rw [hmark]; rfl)
    have hresult : resultRecord.read (grammar.read depth) ([] ++ mark :: rest) = .mismatch :=
      read_resultRecord_of_mismatch .missing hnone (by simp [hmark]) (by simp [hmark])
    have hprompt : promptRecord.read (grammar.read depth) (mark :: rest) =
        .matched [mark] .prompt rest := by
      rw [promptRecord, Parser.read_map, Parser.read_kind_cons, if_pos hmark]
      rfl
    have hneither := (Parser.read_either_of_mismatch hasync).trans hstream
    exact (Parser.read_either_of_mismatch
      ((Parser.read_either_of_mismatch hneither).trans hresult)).trans hprompt

/-- Every record that is read is derived. -/
theorem derivesRecord_of_read {record : Record} {depth : Nat} (hspelled : NumbersSpelled lexemes)
    (h : anyRecord.read (grammar.read depth) lexemes = .matched first record rest) :
    DerivesRecord first record := by
  rcases Parser.read_either_eq_matched h with h | hprompt
  · rcases Parser.read_either_eq_matched h with h | hresult
    · rcases Parser.read_either_eq_matched h with hasync | hstream
      · exact derivesRecord_of_read_asyncRecord hspelled hasync
      · exact derivesRecord_of_read_streamRecord hstream
    · exact derivesRecord_of_read_resultRecord hspelled hresult
  · exact derivesRecord_of_read_promptRecord hprompt

/-- The parser finds a record in the lexemes of a line exactly if they derive it. -/
theorem ofLexemes?_eq_some_iff (hspelled : NumbersSpelled lexemes) {record : Record} :
    ofLexemes? lexemes = some record ↔ DerivesLine lexemes record := by
  have hline : line = anyRecord.thenSkip (Parser.kind .lineEnd) := rfl
  rw [ofLexemes?, Grammar.value?_parseAll_eq_some_iff, hline, Parser.read_thenSkip,
    Reading.bind_eq_matched_iff]
  constructor
  · rintro ⟨first, found, middle, hrecord, hending⟩
    obtain ⟨last, text, left, hkind, heq⟩ := Reading.bind_eq_matched_iff.mp hending
    obtain ⟨ending, hlineEnd, rfl, -, -⟩ := Parser.read_kind_eq_matched hkind
    obtain ⟨rfl, rfl, -⟩ := Reading.matched.inj heq
    exact .mk (derivesRecord_of_read hspelled hrecord) hlineEnd
  · rintro ⟨hrecord, hlineEnd⟩
    rename_i first ending
    have hfirst : NumbersSpelled first := fun lexeme hmem ↦
      hspelled lexeme (List.mem_append_left _ hmem)
    have hdepth : first.length ≤ (first ++ [ending]).length + 1 := by
      rw [List.length_append]
      omega
    have hends : Nonterminal.namedValues.EndsBefore [ending] := by
      simp [Nonterminal.EndsBefore, hlineEnd]
    have hread := read_anyRecord_of_derives hrecord hfirst hdepth hends
    refine ⟨first, record, [ending], hread, ?_⟩
    rw [Parser.read_kind_cons, if_pos hlineEnd, Reading.bind_matched]

end Record

end DebugLink
