import DebugLink.Proofs.Parser.Derived

/-!
How a lexer splits a text. `Lexer.first?` is the first lexical element of a list of characters, and
`Lexer.Lexes` says that a list falls into lexemes when elements are taken off its front one after
the other. `Lexer.lex_eq_ok_iff` says that the lexer finds exactly these lexemes: neither the
buffered stream nor the rules that are tried in vain leave a trace.
-/

set_option autoImplicit false

namespace DebugLink.Lexer

variable {κ ι : Type} {ρ : ι → Type}

/-- What the first of the rules that consume a character makes of the characters, and what it
leaves. -/
def readFirst (calls : (rule : ι) → Reader Char (ρ rule)) :
    List (LexRule κ ρ) → List Char → Option (Option κ × String × List Char)
  | [], _ => none
  | rule :: others, chars =>
    match rule.matcher.read calls chars with
    | .matched read text rest =>
      if read.isEmpty then readFirst calls others chars else some (rule.kind, text, rest)
    | _ => readFirst calls others chars

/-- The first lexical element of the characters, if a rule applies. -/
def first? (lexer : Lexer κ ρ) (depth : Nat) (chars : List Char) :
    Option (Option κ × String × List Char) :=
  readFirst (lexer.grammar.read depth) (lexer.literals ++ lexer.patterns) chars

/-- The characters fall into these lexemes, the first of which has the given offset. -/
inductive Lexes (lexer : Lexer κ ρ) (depth : Nat) : Nat → List Char → List (Lexeme κ) → Prop
  | done {offset : Nat} : Lexes lexer depth offset [] []
  | lexeme {offset : Nat} {chars rest : List Char} {kind : κ} {text : String}
    {lexemes : List (Lexeme κ)} :
    lexer.first? depth chars = some (some kind, text, rest) →
      Lexes lexer depth (offset + (chars.length - rest.length)) rest lexemes →
        Lexes lexer depth offset chars (⟨kind, text, offset⟩ :: lexemes)
  | skipped {offset : Nat} {chars rest : List Char} {text : String} {lexemes : List (Lexeme κ)} :
    lexer.first? depth chars = some (none, text, rest) →
      Lexes lexer depth (offset + (chars.length - rest.length)) rest lexemes →
        Lexes lexer depth offset chars lexemes

/-! ### The first element -/

section ReadFirst

variable {calls : (rule : ι) → Reader Char (ρ rule)} {chars : List Char}

theorem readFirst_cons_of_mismatch {rule : LexRule κ ρ} (others : List (LexRule κ ρ))
    (h : rule.matcher.read calls chars = .mismatch) :
    readFirst calls (rule :: others) chars = readFirst calls others chars := by
  rw [readFirst, h]

theorem readFirst_cons_of_matched {rule : LexRule κ ρ} (others : List (LexRule κ ρ))
    {read rest : List Char} {text : String} (h : rule.matcher.read calls chars =
      .matched read text rest) (hread : read ≠ []) :
    readFirst calls (rule :: others) chars = some (rule.kind, text, rest) := by
  rw [readFirst, h]
  simp [hread]

/-- Fixed texts are tried one after the other. -/
theorem readFirst_literals (texts : List (κ × String)) (hne : ∀ t ∈ texts, t.2.toList ≠ [])
    (rules : List (LexRule κ ρ)) (chars : List Char) :
    readFirst calls
        (texts.map (fun literal ↦ ⟨some literal.1, Parser.text literal.2⟩) ++ rules) chars =
      (texts.findSome? fun literal ↦ (literal.2.toList.isPrefixOf? chars).map
        fun rest ↦ (some literal.1, literal.2, rest)).or (readFirst calls rules chars) := by
  induction texts with
  | nil => rfl
  | cons literal others ih =>
    have hothers := ih fun t ht ↦ hne t (List.mem_cons_of_mem literal ht)
    have hread : (Parser.text literal.2 : Parser Char ρ String).read calls chars = _ :=
      Parser.read_text literal.2 chars
    rw [List.map_cons, List.cons_append, List.findSome?_cons]
    cases hfront : literal.2.toList.isPrefixOf? chars with
    | some rest =>
      rw [hfront] at hread
      rw [readFirst_cons_of_matched _ hread (hne literal List.mem_cons_self)]
      rfl
    | none =>
      rw [hfront] at hread
      rw [readFirst_cons_of_mismatch _ hread, hothers]
      rfl

/-- An element takes at least one character off the front. -/
theorem exists_append_of_readFirst (hcalls : ∀ i, (calls i).Splits) {rules : List (LexRule κ ρ)}
    {kind : Option κ} {text : String} {rest : List Char}
    (h : readFirst calls rules chars = some (kind, text, rest)) :
    ∃ read, read ≠ [] ∧ chars = read ++ rest := by
  induction rules with
  | nil => cases h
  | cons rule others ih =>
    rw [readFirst] at h
    split at h
    · rename_i read found left hread
      split_ifs at h with hempty
      · exact ih h
      · cases h
        have hne : read ≠ [] := by simpa using hempty
        exact ⟨read, hne, Parser.read_splits hcalls rule.matcher hread⟩
    · exact ih h

/-- On a stream, the rules find the element that they find in the list of what is left. -/
theorem firstMatch_eq {run : (rule : ι) → Step Char (ρ rule)}
    (hrun : ∀ i, (run i).Attempts (calls i)) (rules : List (LexRule κ ρ))
    {s : TokenStream Char} (hs : s.Sound) :
    ∃ s', firstMatch run rules s =
        ((readFirst calls rules s.rest).map fun found ↦ (found.1, found.2.1), s') ∧
      s.Extends s' ∧
      ∀ found, readFirst calls rules s.rest = some found → s'.rest = found.2.2 := by
  induction rules generalizing s with
  | nil => exact ⟨s, rfl, .refl hs, fun _ h ↦ nomatch h⟩
  | cons rule others ih =>
    have hrealizes := Parser.realizes_tryParse hrun rule.matcher
    obtain ⟨t, hstep, hextends, hrest⟩ := hrealizes s hs
    rw [firstMatch, hstep]
    cases hread : rule.matcher.read calls s.rest with
    | matched read text rest =>
      rw [hread] at hrest
      by_cases hempty : read = []
      · -- A match of nothing is undone like a failure.
        have hback := hextends.backtrack hs
        obtain ⟨s', hothers, hextends', hfound⟩ := ih hback.sound
        rw [hextends.rest_backtrack] at hothers hfound
        have hskip : readFirst calls (rule :: others) s.rest = readFirst calls others s.rest := by
          rw [readFirst, hread]
          simp [hempty]
        rw [hskip]
        refine ⟨s', ?_, hback.trans hextends', hfound⟩
        simpa [Reading.outcome, hempty] using hothers
      · rw [readFirst_cons_of_matched others hread hempty]
        refine ⟨t, by simp [Reading.outcome, hempty], hextends, ?_⟩
        rintro found hfound
        cases hfound
        exact hrest
    | mismatch =>
      rw [hread] at hrest
      obtain ⟨s', hothers, hextends', hfound⟩ := ih hextends.sound
      rw [hrest] at hothers hfound
      rw [readFirst_cons_of_mismatch others hread]
      exact ⟨s', hothers, hextends.trans hextends', hfound⟩
    | tooDeep =>
      rw [hread] at hrest
      obtain ⟨s', hothers, hextends', hfound⟩ := ih hextends.sound
      rw [hrest] at hothers hfound
      have hskip : readFirst calls (rule :: others) s.rest = readFirst calls others s.rest := by
        rw [readFirst, hread]
      rw [hskip]
      exact ⟨s', hothers, hextends.trans hextends', hfound⟩

end ReadFirst

/-! ### The whole text -/

variable {lexer : Lexer κ ρ} {depth : Nat} {s : TokenStream Char}

theorem exists_append_of_first? {chars : List Char} {kind : Option κ} {text : String}
    {rest : List Char} (h : lexer.first? depth chars = some (kind, text, rest)) :
    ∃ read, read ≠ [] ∧ chars = read ++ rest :=
  exists_append_of_readFirst (lexer.grammar.read_splits depth) h

theorem length_lt_of_first? {chars : List Char} {kind : Option κ} {text : String}
    {rest : List Char} (h : lexer.first? depth chars = some (kind, text, rest)) :
    rest.length < chars.length := by
  obtain ⟨read, hne, rfl⟩ := exists_append_of_first? h
  have hpos := List.length_pos_iff.mpr hne
  rw [List.length_append]
  omega

/-- The lexemes that an element contributes: itself, unless it is to be skipped. -/
def lexemesOf (kind : Option κ) (text : String) (offset : Nat) : List (Lexeme κ) :=
  (kind.map fun kind ↦ ⟨kind, text, offset⟩).toList

theorem lexes_nil_iff {offset : Nat} {lexemes : List (Lexeme κ)} :
    lexer.Lexes depth offset [] lexemes ↔ lexemes = [] := by
  constructor
  · rintro (_ | ⟨hfirst, -⟩ | ⟨hfirst, -⟩)
    · rfl
    · exact absurd (length_lt_of_first? hfirst) (Nat.not_lt_zero _)
    · exact absurd (length_lt_of_first? hfirst) (Nat.not_lt_zero _)
  · rintro rfl
    exact .done

theorem not_lexes_of_first?_eq_none {offset : Nat} {chars : List Char} {lexemes : List (Lexeme κ)}
    (hchars : chars ≠ []) (hfirst : lexer.first? depth chars = none) :
    ¬ lexer.Lexes depth offset chars lexemes := by
  rintro (_ | ⟨hfound, -⟩ | ⟨hfound, -⟩)
  · exact hchars rfl
  · simp [hfirst] at hfound
  · simp [hfirst] at hfound

/-- The first element of the characters is the first of their lexemes, or is skipped. -/
theorem lexes_iff_of_first? {offset : Nat} {chars rest : List Char} {kind : Option κ}
    {text : String} {lexemes : List (Lexeme κ)}
    (hfirst : lexer.first? depth chars = some (kind, text, rest)) :
    lexer.Lexes depth offset chars lexemes ↔
      ∃ others, lexer.Lexes depth (offset + (chars.length - rest.length)) rest others ∧
        lexemes = lexemesOf kind text offset ++ others := by
  constructor
  · rintro (_ | ⟨hfound, hothers⟩ | ⟨hfound, hothers⟩)
    · exact absurd (length_lt_of_first? hfirst) (Nat.not_lt_zero _)
    · obtain ⟨rfl, rfl, rfl⟩ : _ ∧ _ ∧ _ := by simpa using hfirst.symm.trans hfound
      exact ⟨_, hothers, rfl⟩
    · obtain ⟨rfl, rfl, rfl⟩ : _ ∧ _ ∧ _ := by simpa using hfirst.symm.trans hfound
      exact ⟨_, hothers, rfl⟩
  · rintro ⟨others, hothers, rfl⟩
    cases kind with
    | some kind => exact .lexeme hfirst hothers
    | none => exact .skipped hfirst hothers

theorem lexStream_of_rest_nil (hs : s.Sound) (hrest : s.rest = []) :
    lexer.lexStream depth s = .ok [] := by
  have heos := TokenStream.isEos_fst hs
  rw [hrest] at heos
  rw [lexStream]
  split
  · rfl
  · rename_i hfalse
    rw [hfalse] at heos
    cases heos

/-- One element is taken off the front of a stream in which something is left. -/
theorem lexStream_of_rest_ne_nil (lexer : Lexer κ ρ) (depth : Nat) (hs : s.Sound)
    (hrest : s.rest ≠ []) :
    ∃ s', firstMatch (lexer.grammar.run depth) (lexer.literals ++ lexer.patterns) s.isEos.2 =
        ((lexer.first? depth s.rest).map fun found ↦ (found.1, found.2.1), s') ∧
      s.Extends s' ∧
      (∀ found, lexer.first? depth s.rest = some found → s'.rest = found.2.2) ∧
      lexer.lexStream depth s =
        match lexer.first? depth s.rest with
        | none => .error ⟨s.position, String.ofList (s.rest.take contextLength)⟩
        | some (kind, text, _) =>
          (lexer.lexStream depth s').map fun lexemes ↦
            lexemesOf kind text s.position ++ lexemes := by
  have heos := TokenStream.isEos_fst hs
  have hfilled := TokenStream.extends_isEos hs
  have hrun := fun i ↦ (lexer.grammar.realizes_run depth i).attempts
  obtain ⟨s', hmatch, hextends, hfound⟩ :=
    firstMatch_eq hrun (lexer.literals ++ lexer.patterns) hfilled.sound
  rw [TokenStream.rest_isEos s] at hmatch hfound
  refine ⟨s', hmatch, hfilled.trans hextends, hfound, ?_⟩
  rw [lexStream]
  split
  · rename_i htrue
    rw [htrue] at heos
    simp [hrest] at heos
  · rename_i filled hfalse
    obtain rfl : s.isEos.2 = filled := congrArg Prod.snd hfalse
    rw [hmatch]
    cases hfirst : lexer.first? depth s.rest with
    | none =>
      rw [first?] at hfirst
      simp only [hfirst, Option.map_none]
    | some found =>
      obtain ⟨kind, text, rest⟩ := found
      have hshorter : s'.remaining < s.remaining := by
        rw [TokenStream.remaining_eq, TokenStream.remaining_eq, hfound _ hfirst]
        exact length_lt_of_first? hfirst
      rw [first?] at hfirst
      simp only [hfirst, Option.map_some, hshorter, ↓reduceIte]
      cases lexer.lexStream depth s' with
      | error e => rfl
      | ok lexemes => cases kind <;> rfl

theorem lexStream_eq_ok_iff (hs : s.Sound) {lexemes : List (Lexeme κ)} :
    lexer.lexStream depth s = .ok lexemes ↔ lexer.Lexes depth s.position s.rest lexemes := by
  induction hlength : s.rest.length using Nat.strong_induction_on generalizing s lexemes with
  | _ length ih =>
    by_cases hrest : s.rest = []
    · rw [lexStream_of_rest_nil hs hrest, hrest, lexes_nil_iff, Except.ok.injEq, eq_comm]
    · obtain ⟨s', -, hextends, hfound, hlex⟩ := lexStream_of_rest_ne_nil lexer depth hs hrest
      rw [hlex]
      cases hfirst : lexer.first? depth s.rest with
      | none => simp [not_lexes_of_first?_eq_none hrest hfirst]
      | some found =>
        obtain ⟨kind, text, rest⟩ := found
        have hleft : s'.rest = rest := hfound _ hfirst
        have hposition : s'.position = s.position + (s.rest.length - rest.length) := by
          have hbefore := TokenStream.position_add_length_rest hs
          have hafter := TokenStream.position_add_length_rest hextends.sound
          have hshorter := length_lt_of_first? hfirst
          rw [hextends.source_eq, hleft] at hafter
          omega
        have hothers : ∀ others, lexer.lexStream depth s' = .ok others ↔
            lexer.Lexes depth (s.position + (s.rest.length - rest.length)) rest others := by
          intro others
          have hshorter : s'.rest.length < length := by
            rw [hleft, ← hlength]
            exact length_lt_of_first? hfirst
          rw [ih _ hshorter hextends.sound rfl, hleft, hposition]
        rw [lexes_iff_of_first? hfirst]
        simp only [← hothers]
        cases lexer.lexStream depth s' with
        | error e => simp [Except.map]
        | ok others => simp [Except.map, eq_comm]

/-- A lexer finds exactly the lexemes that a text falls into. -/
theorem lex_eq_ok_iff {input : String} {lexemes : List (Lexeme κ)} :
    lexer.lex depth input = .ok lexemes ↔ lexer.Lexes depth 0 input.toList lexemes := by
  rw [lex, lexStream_eq_ok_iff (TokenStream.sound_ofList input.toList), TokenStream.rest_ofList]
  rfl

/-! ### Lexemes wherever they stand -/

/-- A lexeme without the place where it stands. -/
def content (lexeme : Lexeme κ) : κ × String :=
  (lexeme.kind, lexeme.text)

/-- The characters fall into lexemes of these kinds and texts, whatever stands before them. -/
def Yields (lexer : Lexer κ ρ) (depth : Nat) (chars : List Char) (elements : List (κ × String)) :
    Prop :=
  ∀ offset, ∃ lexemes, lexemes.map content = elements ∧ lexer.Lexes depth offset chars lexemes

namespace Yields

variable {chars rest : List Char} {elements : List (κ × String)}

theorem nil : lexer.Yields depth [] [] := fun _ ↦ ⟨[], rfl, .done⟩

theorem cons {kind : κ} {text : String}
    (hfirst : lexer.first? depth chars = some (some kind, text, rest))
    (hrest : lexer.Yields depth rest elements) :
    lexer.Yields depth chars ((kind, text) :: elements) := by
  intro offset
  obtain ⟨lexemes, hlexemes, hlexes⟩ := hrest (offset + (chars.length - rest.length))
  exact ⟨⟨kind, text, offset⟩ :: lexemes, by rw [List.map_cons, hlexemes]; rfl,
    .lexeme hfirst hlexes⟩

theorem skip {text : String} (hfirst : lexer.first? depth chars = some (none, text, rest))
    (hrest : lexer.Yields depth rest elements) : lexer.Yields depth chars elements := by
  intro offset
  obtain ⟨lexemes, hlexemes, hlexes⟩ := hrest (offset + (chars.length - rest.length))
  exact ⟨lexemes, hlexemes, .skipped hfirst hlexes⟩

/-- Lexemes of the same kinds and texts are found wherever the characters stand. -/
theorem of_lexes {offset : Nat} {lexemes : List (Lexeme κ)}
    (h : lexer.Lexes depth offset chars lexemes) :
    lexer.Yields depth chars (lexemes.map content) := by
  induction h with
  | done => exact nil
  | lexeme hfirst _ ih => exact cons hfirst ih
  | skipped hfirst _ ih => exact skip hfirst ih

end Yields

section YieldsIff

variable {chars rest : List Char} {elements : List (κ × String)}

theorem yields_nil_iff : lexer.Yields depth [] elements ↔ elements = [] := by
  constructor
  · intro h
    obtain ⟨lexemes, rfl, hlexes⟩ := h 0
    rw [lexes_nil_iff.mp hlexes, List.map_nil]
  · rintro rfl
    exact .nil

theorem not_yields_of_first?_eq_none (hchars : chars ≠ [])
    (hfirst : lexer.first? depth chars = none) :
    ¬ lexer.Yields depth chars elements := by
  intro h
  obtain ⟨lexemes, -, hlexes⟩ := h 0
  exact not_lexes_of_first?_eq_none hchars hfirst hlexes

/-- The first element of the characters comes before those of the rest, unless it is skipped. -/
theorem yields_iff_of_first? {kind : Option κ} {text : String}
    (hfirst : lexer.first? depth chars = some (kind, text, rest)) :
    lexer.Yields depth chars elements ↔
      ∃ others, lexer.Yields depth rest others ∧
        elements = (kind.map fun kind ↦ (kind, text)).toList ++ others := by
  constructor
  · intro h
    obtain ⟨lexemes, rfl, hlexes⟩ := h 0
    obtain ⟨others, hothers, rfl⟩ := (lexes_iff_of_first? hfirst).mp hlexes
    refine ⟨others.map content, .of_lexes hothers, ?_⟩
    rw [List.map_append]
    cases kind <;> rfl
  · rintro ⟨others, hothers, rfl⟩
    cases kind with
    | some kind => exact .cons hfirst hothers
    | none => exact .skip hfirst hothers

end YieldsIff

/-- A text that falls into lexemes of some kinds and texts is split into them. -/
theorem exists_lex_of_yields {input : String} {elements : List (κ × String)}
    (h : lexer.Yields depth input.toList elements) :
    ∃ lexemes, lexer.lex depth input = .ok lexemes ∧ lexemes.map content = elements := by
  obtain ⟨lexemes, hlexemes, hlexes⟩ := h 0
  exact ⟨lexemes, lex_eq_ok_iff.mpr hlexes, hlexemes⟩

end DebugLink.Lexer
