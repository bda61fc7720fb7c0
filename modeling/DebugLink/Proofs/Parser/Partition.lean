import DebugLink.Proofs.Parser.Consumption
import DebugLink.Proofs.Parser.Lexing

/-!
How a lexer divides a text. A piece is what the first rule that takes a character takes off the
front of the text, where fixed texts come before patterns and rules of either sort in the order in
which they were registered (`Piece.IsFirst`). Pieces are taken off one after the other until nothing
is left, or until no rule takes a character (`Divides`, `Stuck`). A run of the lexer that returns
ends in exactly this way, and a run returns whenever the parsers of the rules do
(`Lexer.returns_iff_divides`).
-/

set_option autoImplicit false

namespace DebugLink

open Filter

variable {κ ι α : Type} {ρ : ι → Type}

/-! ### Registered rules -/

/-- A call that adds a rule to a lexer. -/
inductive Registration (κ : Type) {ι : Type} (ρ : ι → Type) : Type 1
  | literal (kind : κ) (text : String)
  | pattern (kind : κ) (matcher : Parser Char ρ String)
  | skip {α : Type} (matcher : Parser Char ρ α)

namespace Registration

/-- The lexer after one more call. -/
def register (lexer : Lexer κ ρ) : Registration κ ρ → Lexer κ ρ
  | literal kind text => lexer.literal kind text
  | pattern kind matcher => lexer.pattern kind matcher
  | skip matcher => lexer.skip matcher

/-- The rule that a call adds. What is skipped has its own characters as its value. -/
def rule : Registration κ ρ → LexRule κ ρ
  | literal kind text => ⟨some kind, Parser.text text⟩
  | pattern kind matcher => ⟨some kind, matcher⟩
  | skip matcher => ⟨none, matcher.mapTokens fun tokens _ ↦ String.ofList tokens⟩

/-- Whether a call adds a fixed text. -/
def isLiteral : Registration κ ρ → Bool
  | literal _ _ => true
  | _ => false

/-- The rules in the order in which they are tried: fixed texts first, and otherwise in the order of
the calls. -/
def inOrder (registrations : List (Registration κ ρ)) : List (LexRule κ ρ) :=
  (registrations.filter isLiteral ++ registrations.filter fun r ↦ !r.isLiteral).map rule

/-- Calls add their rules at the end, fixed texts and patterns apart. -/
theorem rules_foldl_register (registrations : List (Registration κ ρ))
    (lexer : Lexer κ ρ) :
    (registrations.foldl register lexer).grammar = lexer.grammar ∧
    (registrations.foldl register lexer).literals =
      lexer.literals ++ (registrations.filter isLiteral).map rule ∧
    (registrations.foldl register lexer).patterns =
      lexer.patterns ++ (registrations.filter fun r ↦ !r.isLiteral).map rule := by
  induction registrations generalizing lexer with
  | nil => simp
  | cons registration registrations ih =>
    obtain ⟨hgrammar, hliterals, hpatterns⟩ := ih (register lexer registration)
    rw [List.foldl_cons, hgrammar, hliterals, hpatterns]
    cases registration with
    | literal kind text => simp [register, isLiteral, rule, Lexer.literal, List.filter_cons]
    | pattern kind matcher => simp [register, isLiteral, rule, Lexer.pattern]
    | skip matcher => simp [register, isLiteral, rule, Lexer.skip]

end Registration

namespace Lexer

/-- The rules of a lexer in the order in which they are tried. -/
abbrev rules (lexer : Lexer κ ρ) : List (LexRule κ ρ) :=
  lexer.literals ++ lexer.patterns

/-- The lexer that a sequence of calls makes. -/
def registered (g : Grammar Char ρ) (registrations : List (Registration κ ρ)) : Lexer κ ρ :=
  registrations.foldl Registration.register (empty g)

/-- Calls leave the grammar of a lexer as it is. -/
theorem grammar_registered (g : Grammar Char ρ) (registrations : List (Registration κ ρ)) :
    (registered g registrations).grammar = g :=
  (Registration.rules_foldl_register registrations (empty g)).1

/-- The rules of a lexer are those of the calls in the order in which they are tried. -/
theorem rules_registered (g : Grammar Char ρ) (registrations : List (Registration κ ρ)) :
    (registered g registrations).rules = Registration.inOrder registrations := by
  obtain ⟨-, hliterals, hpatterns⟩ := Registration.rules_foldl_register registrations (empty g)
  rw [rules, registered, hliterals, hpatterns, Registration.inOrder, List.map_append]
  rfl

end Lexer

/-! ### Pieces -/

/-- What a parser makes of characters with nothing before them. -/
def Grammar.Makes (g : Grammar Char ρ) (p : Parser Char ρ α) (chars : List Char)
    (outcome : Outcome Char α) : Prop :=
  ∃ s', g.Returns p (TokenStream.ofList chars) outcome s'

/-- The rule takes no character: its parser fails, or matches nothing. -/
def LexRule.PassesOver (rule : LexRule κ ρ) (g : Grammar Char ρ) (chars : List Char) : Prop :=
  g.Makes rule.matcher chars .mismatch ∨ ∃ text, g.Makes rule.matcher chars (.matched ⟨[], text⟩)

/-- Characters of a text, the rule that took them and the value that its parser made of them. -/
structure Piece (κ : Type) {ι : Type} (ρ : ι → Type) where
  rule : LexRule κ ρ
  chars : List Char
  text : String

namespace Piece

/-- The piece is taken off the front of the characters by its rule, the first one that takes any of
them. -/
def IsFirst (piece : Piece κ ρ) (g : Grammar Char ρ) (rules : List (LexRule κ ρ))
    (chars rest : List Char) : Prop :=
  ∃ before after, rules = before ++ piece.rule :: after ∧
    (∀ rule ∈ before, rule.PassesOver g chars) ∧
    g.Makes piece.rule.matcher chars (.matched ⟨piece.chars, piece.text⟩) ∧ piece.chars ≠ [] ∧
    chars = piece.chars ++ rest

/-- The lexemes of consecutive pieces, the first of which has the given offset. Pieces that are
skipped have none. -/
def lexemes : Nat → List (Piece κ ρ) → List (Lexeme κ)
  | _, [] => []
  | offset, piece :: pieces =>
    Lexer.lexemesOf piece.rule.kind piece.text offset ++
      lexemes (offset + piece.chars.length) pieces

end Piece

/-- The characters begin with the pieces, one after the other, and go on with the rest. -/
inductive Divides (g : Grammar Char ρ) (rules : List (LexRule κ ρ)) :
    List Char → List (Piece κ ρ) → List Char → Prop
  | done {chars : List Char} : Divides g rules chars [] chars
  | more {chars middle rest : List Char} {piece : Piece κ ρ} {pieces : List (Piece κ ρ)} :
    piece.IsFirst g rules chars middle → Divides g rules middle pieces rest →
      Divides g rules chars (piece :: pieces) rest

/-- There are characters, but no rule takes one. -/
def Stuck (g : Grammar Char ρ) (rules : List (LexRule κ ρ)) (chars : List Char) : Prop :=
  chars ≠ [] ∧ ∀ rule ∈ rules, rule.PassesOver g chars

/-! ### Runs that return -/

namespace Lexer

/-- None of the rules that are tried in a search for the first match is too deep. -/
def Decides (run : (rule : ι) → Step Char (ρ rule)) :
    List (LexRule κ ρ) → TokenStream Char → Prop
  | [], _ => True
  | rule :: others, s =>
    match rule.matcher.tryParse run s with
    | (.matched parsed, s') => parsed.tokens = [] → Decides run others (s'.backtrack s.savepoint)
    | (.mismatch, s') => Decides run others s'
    | (.tooDeep, _) => False

/-- None of the rules that are tried until the lexer comes to an end is too deep. -/
inductive Completes (lexer : Lexer κ ρ) (depth : Nat) : TokenStream Char → Prop
  | ended {s : TokenStream Char} : s.isEos.1 = true → Completes lexer depth s
  | tried {s : TokenStream Char} : s.isEos.1 = false →
    Decides (lexer.grammar.run depth) lexer.rules s.isEos.2 →
      (∀ found s', firstMatch (lexer.grammar.run depth) lexer.rules s.isEos.2 =
        (some found, s') → Completes lexer depth s') →
        Completes lexer depth s

/-- The lexer returns on a text with this result: there is a depth of rule calls that is enough. -/
def Returns (lexer : Lexer κ ρ) (input : String)
    (result : Except SyntaxError (List (Lexeme κ))) : Prop :=
  ∃ depth, lexer.lex depth input = result ∧
    lexer.Completes depth (TokenStream.ofList input.toList)

end Lexer

/-! ### Rules on lists -/

section Rules

variable {g : Grammar Char ρ} {p : Parser Char ρ α} {rule : LexRule κ ρ}
  {rules others : List (LexRule κ ρ)} {piece : Piece κ ρ} {chars rest : List Char}

/-- What a parser makes of characters comes from how it reads them. -/
theorem Grammar.makes_iff {outcome : Outcome Char α} :
    g.Makes p chars outcome ↔ ∃ reading, g.Reads p chars reading ∧ reading.outcome = outcome := by
  have hs := TokenStream.sound_ofList chars
  constructor
  · rintro ⟨s', hreturns⟩
    obtain ⟨reading, hreads, rfl, -, -⟩ := hreturns.reads hs
    rw [TokenStream.rest_ofList] at hreads
    exact ⟨reading, hreads, rfl⟩
  · rintro ⟨reading, hreads, rfl⟩
    rw [← TokenStream.rest_ofList chars] at hreads
    exact hreads.returns hs

/-- A match leaves something, be it nothing at all. -/
theorem Grammar.makes_matched_iff {found : Parsed Char α} :
    g.Makes p chars (.matched found) ↔
      ∃ rest, g.Reads p chars (.matched found.tokens found.value rest) := by
  simp only [makes_iff, Reading.outcome_eq_matched_iff]
  exact ⟨fun ⟨_, hreads, rest, heq⟩ ↦ ⟨rest, heq ▸ hreads⟩,
    fun ⟨rest, hreads⟩ ↦ ⟨_, hreads, rest, rfl⟩⟩

/-- A rule passes over characters if it reads none of them. -/
theorem LexRule.passesOver_iff :
    rule.PassesOver g chars ↔
      ∃ reading, g.Reads rule.matcher chars reading ∧ reading.count = 0 := by
  constructor
  · rintro (hmismatch | ⟨text, hmatched⟩)
    · obtain ⟨reading, hreads, houtcome⟩ := Grammar.makes_iff.mp hmismatch
      rw [Reading.outcome_eq_mismatch_iff.mp houtcome] at hreads
      exact ⟨_, hreads, rfl⟩
    · obtain ⟨rest, hreads⟩ := Grammar.makes_matched_iff.mp hmatched
      exact ⟨_, hreads, rfl⟩
  · rintro ⟨reading, hreads, hcount⟩
    cases reading with
    | matched read text rest =>
      obtain rfl := List.length_eq_zero_iff.mp hcount
      exact .inr ⟨text, Grammar.makes_matched_iff.mpr ⟨rest, hreads⟩⟩
    | mismatch => exact .inl (Grammar.makes_iff.mpr ⟨_, hreads, rfl⟩)
    | tooDeep => exact absurd rfl hreads.ne_tooDeep

/-- A piece is first if the rules before its own pass over the characters and its own takes the
piece. -/
theorem Piece.isFirst_iff :
    piece.IsFirst g rules chars rest ↔
      ∃ before after, rules = before ++ piece.rule :: after ∧
        (∀ rule ∈ before, rule.PassesOver g chars) ∧ piece.chars ≠ [] ∧
        g.Reads piece.rule.matcher chars (.matched piece.chars piece.text rest) := by
  simp only [IsFirst, Grammar.makes_matched_iff]
  constructor
  · rintro ⟨before, after, hrules, hbefore, ⟨left, hreads⟩, hne, hchars⟩
    obtain rfl : rest = left := List.append_cancel_left (hchars.symm.trans hreads.splits)
    exact ⟨before, after, hrules, hbefore, hne, hreads⟩
  · rintro ⟨before, after, hrules, hbefore, hne, hreads⟩
    exact ⟨before, after, hrules, hbefore, ⟨rest, hreads⟩, hne, hreads.splits⟩

/-- The characters are the piece and what is left. -/
theorem Piece.IsFirst.append_eq (h : piece.IsFirst g rules chars rest) :
    chars = piece.chars ++ rest := by
  obtain ⟨_, _, _, _, _, _, hchars⟩ := h
  exact hchars

/-- A piece is not empty. -/
theorem Piece.IsFirst.chars_ne_nil (h : piece.IsFirst g rules chars rest) : piece.chars ≠ [] := by
  obtain ⟨_, _, _, _, _, hne, _⟩ := h
  exact hne

/-- Nothing is taken off an empty text. -/
theorem Piece.IsFirst.ne_nil (h : piece.IsFirst g rules chars rest) : chars ≠ [] := by
  rw [h.append_eq]
  exact List.append_ne_nil_of_left_ne_nil h.chars_ne_nil rest

/-- Rules that pass over the characters may be tried before. -/
theorem Piece.IsFirst.of_passesOver (h : piece.IsFirst g others chars rest)
    (hrule : rule.PassesOver g chars) : piece.IsFirst g (rule :: others) chars rest := by
  obtain ⟨before, after, rfl, hbefore, hmakes⟩ := h
  exact ⟨rule :: before, after, rfl, List.forall_mem_cons.mpr ⟨hrule, hbefore⟩, hmakes⟩

/-- A rule whose parser comes to an end on the characters takes some of them or passes over them. -/
theorem LexRule.takes_or_passesOver {reading : Reading Char String}
    (h : g.Reads rule.matcher chars reading) (others : List (LexRule κ ρ)) :
    (∃ (piece : Piece κ ρ) (rest : List Char), reading = .matched piece.chars piece.text rest ∧
      piece.rule = rule ∧ piece.IsFirst g (rule :: others) chars rest) ∨
      reading.count = 0 ∧ rule.PassesOver g chars := by
  by_cases hcount : reading.count = 0
  · exact .inr ⟨hcount, passesOver_iff.mpr ⟨reading, h, hcount⟩⟩
  · cases reading with
    | matched read text rest =>
      have hne : read ≠ [] := fun hnil ↦ hcount (congrArg List.length hnil)
      have hnone : ∀ rule ∈ ([] : List (LexRule κ ρ)), rule.PassesOver g chars := nofun
      exact .inl ⟨⟨rule, read, text⟩, rest, rfl, rfl,
        Piece.isFirst_iff.mpr ⟨[], others, rfl, hnone, hne, h⟩⟩
    | mismatch => exact absurd rfl hcount
    | tooDeep => exact absurd rfl hcount

/-- Where every rule comes to an end, one of them takes a piece, or no rule takes a character. -/
theorem exists_isFirst_or_passesOver
    (h : ∀ rule ∈ rules, ∃ reading, g.Reads rule.matcher chars reading) :
    (∃ (piece : Piece κ ρ) (rest : List Char), piece.IsFirst g rules chars rest) ∨
      ∀ rule ∈ rules, rule.PassesOver g chars := by
  induction rules with
  | nil => exact .inr nofun
  | cons rule others ih =>
    obtain ⟨⟨reading, hreads⟩, hothers⟩ := List.forall_mem_cons.mp h
    rcases rule.takes_or_passesOver hreads others with ⟨piece, rest, -, -, hfirst⟩ | ⟨-, hrule⟩
    · exact .inl ⟨piece, rest, hfirst⟩
    · rcases ih hothers with ⟨piece, rest, hfirst⟩ | hnone
      · exact .inl ⟨piece, rest, hfirst.of_passesOver hrule⟩
      · exact .inr (List.forall_mem_cons.mpr ⟨hrule, hnone⟩)

end Rules

/-! ### The first match -/

namespace Lexer

section FirstMatch

variable {calls : (rule : ι) → Reader Char (ρ rule)} {g : Grammar Char ρ} {depth : Nat}
  {rules : List (LexRule κ ρ)} {chars : List Char}

/-- None of the rules that are tried on the characters is too deep. -/
def Settled (calls : (rule : ι) → Reader Char (ρ rule)) :
    List (LexRule κ ρ) → List Char → Prop
  | [], _ => True
  | rule :: others, chars =>
    rule.matcher.read calls chars ≠ .tooDeep ∧
      ((rule.matcher.read calls chars).count = 0 → Settled calls others chars)

/-- A rule that reads nothing is passed over in the search. -/
theorem readFirst_cons_of_count_eq_zero {rule : LexRule κ ρ} (others : List (LexRule κ ρ))
    (h : (rule.matcher.read calls chars).count = 0) :
    readFirst calls (rule :: others) chars = readFirst calls others chars := by
  rw [readFirst]
  cases hread : rule.matcher.read calls chars with
  | matched read text rest =>
    rw [hread] at h
    obtain rfl := List.length_eq_zero_iff.mp h
    rfl
  | mismatch => rfl
  | tooDeep => rfl

/-- On a stream the rules are tried that are tried on the list of what is left. -/
theorem decides_iff {run : (rule : ι) → Step Char (ρ rule)}
    (hrun : ∀ i, (run i).Attempts (calls i)) (rules : List (LexRule κ ρ))
    {s : TokenStream Char} (hs : s.Sound) : Decides run rules s ↔ Settled calls rules s.rest := by
  induction rules generalizing s with
  | nil => exact Iff.rfl
  | cons rule others ih =>
    obtain ⟨t, hstep, hextends, hrest⟩ := Parser.realizes_tryParse hrun rule.matcher s hs
    rw [Decides, hstep, Settled]
    cases hread : rule.matcher.read calls s.rest with
    | matched read text rest =>
      have hback := ih (hextends.backtrack hs).sound
      rw [hextends.rest_backtrack] at hback
      simp [Reading.outcome, Reading.count, hback]
    | mismatch =>
      have hothers := ih hextends.sound
      rw [hrest, hread] at hothers
      simpa [Reading.outcome, Reading.count, Reading.left] using hothers
    | tooDeep => simp [Reading.outcome]

/-- The first match of rules none of which is too deep is a piece, or else no rule takes a
character. -/
theorem isFirst_or_passesOver_of_settled (h : Settled (g.read depth) rules chars) :
    (∃ (piece : Piece κ ρ) (rest : List Char),
      readFirst (g.read depth) rules chars = some (piece.rule.kind, piece.text, rest) ∧
        piece.IsFirst g rules chars rest) ∨
      readFirst (g.read depth) rules chars = none ∧ ∀ rule ∈ rules, rule.PassesOver g chars := by
  induction rules with
  | nil => exact .inr ⟨rfl, nofun⟩
  | cons rule others ih =>
    obtain ⟨hdeep, hothers⟩ := h
    have hreads : g.Reads rule.matcher chars (rule.matcher.read (g.read depth) chars) :=
      ⟨depth, rfl, hdeep⟩
    rcases rule.takes_or_passesOver hreads others with
      ⟨piece, rest, hread, rfl, hfirst⟩ | ⟨hcount, hrule⟩
    · have hfound := readFirst_cons_of_matched others hread hfirst.chars_ne_nil
      exact .inl ⟨piece, rest, hfound, hfirst⟩
    · rw [readFirst_cons_of_count_eq_zero others hcount]
      rcases ih (hothers hcount) with ⟨piece, rest, hread, hfirst⟩ | ⟨hread, hnone⟩
      · exact .inl ⟨piece, rest, hread, hfirst.of_passesOver hrule⟩
      · exact .inr ⟨hread, List.forall_mem_cons.mpr ⟨hrule, hnone⟩⟩

/-- With enough depth, rules that take nothing make no difference. -/
theorem eventually_settled_append {before : List (LexRule κ ρ)}
    (h : ∀ rule ∈ before, rule.PassesOver g chars) (rules : List (LexRule κ ρ)) :
    ∀ᶠ depth in atTop,
      (Settled (g.read depth) (before ++ rules) chars ↔ Settled (g.read depth) rules chars) ∧
        readFirst (g.read depth) (before ++ rules) chars =
          readFirst (g.read depth) rules chars := by
  induction before with
  | nil => exact .of_forall fun _ ↦ ⟨Iff.rfl, rfl⟩
  | cons rule before ih =>
    obtain ⟨hrule, hbefore⟩ := List.forall_mem_cons.mp h
    obtain ⟨reading, hreads, hcount⟩ := LexRule.passesOver_iff.mp hrule
    filter_upwards [ih hbefore, hreads.eventually] with depth hothers hread
    have hnone : (rule.matcher.read (g.read depth) chars).count = 0 := by rw [hread, hcount]
    have hdeep : rule.matcher.read (g.read depth) chars ≠ .tooDeep := by
      rw [hread]
      exact hreads.ne_tooDeep
    rw [List.cons_append, readFirst_cons_of_count_eq_zero _ hnone, Settled]
    exact ⟨by simp [hnone, hdeep, hothers.1], hothers.2⟩

/-- With enough levels of calls the first piece is found. -/
theorem eventually_settled_of_isFirst {piece : Piece κ ρ} {rest : List Char}
    (h : piece.IsFirst g rules chars rest) :
    ∀ᶠ depth in atTop, Settled (g.read depth) rules chars ∧
      readFirst (g.read depth) rules chars = some (piece.rule.kind, piece.text, rest) := by
  obtain ⟨before, after, rfl, hbefore, hne, hreads⟩ := Piece.isFirst_iff.mp h
  filter_upwards [eventually_settled_append hbefore (piece.rule :: after),
    hreads.eventually] with depth hsame hread
  rw [hsame.1, hsame.2, Settled, hread]
  exact ⟨⟨by simp, fun hcount ↦ absurd (List.length_eq_zero_iff.mp hcount) hne⟩,
    readFirst_cons_of_matched after hread hne⟩

/-- With enough levels of calls it is found that no rule takes a character. -/
theorem eventually_settled_of_passesOver (h : ∀ rule ∈ rules, rule.PassesOver g chars) :
    ∀ᶠ depth in atTop, Settled (g.read depth) rules chars ∧
      readFirst (g.read depth) rules chars = none := by
  filter_upwards [eventually_settled_append h []] with depth hsame
  rw [List.append_nil] at hsame
  exact ⟨hsame.1.mpr trivial, hsame.2⟩

end FirstMatch

/-! ### The whole text -/

section Run

variable {lexer : Lexer κ ρ} {depth : Nat} {s : TokenStream Char} {chars rest : List Char}
  {pieces : List (Piece κ ρ)}

/-- The answer of a lexer that has taken pieces off a text and found no more. -/
def verdict (offset : Nat) (pieces : List (Piece κ ρ)) (rest : List Char) :
    Except SyntaxError (List (Lexeme κ)) :=
  if rest = [] then .ok (Piece.lexemes offset pieces)
  else
    .error ⟨offset + (pieces.flatMap Piece.chars).length, String.ofList (rest.take contextLength)⟩

/-- A piece more in front adds its lexeme, if it is not skipped, and moves the others. -/
theorem verdict_cons (offset : Nat) (piece : Piece κ ρ) (pieces : List (Piece κ ρ))
    (rest : List Char) :
    verdict offset (piece :: pieces) rest =
      (verdict (offset + piece.chars.length) pieces rest).map fun lexemes ↦
        lexemesOf piece.rule.kind piece.text offset ++ lexemes := by
  unfold verdict
  split_ifs
  · rfl
  · rw [List.flatMap_cons, List.length_append, Nat.add_assoc]
    rfl

/-- A lexer succeeds exactly if nothing is left. -/
theorem eq_verdict_iff_of_ok {offset : Nat} {lexemes : List (Lexeme κ)} :
    .ok lexemes = verdict offset pieces rest ↔
      rest = [] ∧ lexemes = Piece.lexemes offset pieces := by
  unfold verdict
  split_ifs with hrest <;> simp [hrest]

/-- A lexer fails at the end of the pieces, with the beginning of what is left as context. -/
theorem eq_verdict_iff_of_error {offset : Nat} {e : SyntaxError} :
    .error e = verdict offset pieces rest ↔
      rest ≠ [] ∧ e = ⟨offset + (pieces.flatMap Piece.chars).length,
        String.ofList (rest.take contextLength)⟩ := by
  unfold verdict
  split_ifs with hrest <;> simp [hrest]

/-- Nothing is left, or no rule takes a character of what is left. -/
def Over (lexer : Lexer κ ρ) (rest : List Char) : Prop :=
  rest = [] ∨ Stuck lexer.grammar lexer.rules rest

/-- The rules are tried on a stream once it was found not to be at its end. -/
theorem decides_rules_iff (hs : s.Sound) :
    Decides (lexer.grammar.run depth) lexer.rules s.isEos.2 ↔
      Settled (lexer.grammar.read depth) lexer.rules s.rest := by
  have hrun := fun i ↦ (lexer.grammar.realizes_run depth i).attempts
  rw [decides_iff hrun lexer.rules (TokenStream.extends_isEos hs).sound, TokenStream.rest_isEos s]

/-- A lexer completes if the next search does and it completes behind what is found. -/
theorem completes_of_settled (hs : s.Sound) (hrest : s.rest ≠ [])
    (hsettled : Settled (lexer.grammar.read depth) lexer.rules s.rest)
    (hnext : ∀ found, lexer.first? depth s.rest = some found →
      ∀ s' : TokenStream Char, s'.Sound → s'.rest = found.2.2 → lexer.Completes depth s') :
    lexer.Completes depth s := by
  have heos : s.isEos.1 = false := by
    rw [TokenStream.isEos_fst hs, List.isEmpty_eq_false_iff]
    exact hrest
  obtain ⟨s', hmatch, hextends, hfound, -⟩ := lexStream_of_rest_ne_nil lexer depth hs hrest
  refine .tried heos ((decides_rules_iff hs).mpr hsettled) ?_
  intro found t ht
  obtain ⟨hfirst, rfl⟩ := Prod.mk.inj (hmatch.symm.trans ht)
  obtain ⟨first, hread, -⟩ := Option.map_eq_some_iff.mp hfirst
  exact hnext first hread _ hextends.sound (hfound first hread)

/-- A run that comes to an end has divided what was left of its stream. -/
theorem Completes.exists_divides (h : lexer.Completes depth s) (hs : s.Sound) :
    ∃ pieces rest,
      Divides lexer.grammar lexer.rules s.rest pieces rest ∧
        lexer.Over rest ∧ lexer.lexStream depth s = verdict s.position pieces rest := by
  induction h with
  | @ended s heos =>
    have hrest : s.rest = [] := by
      rw [TokenStream.isEos_fst hs] at heos
      exact List.isEmpty_iff.mp heos
    exact ⟨[], [], hrest ▸ .done, .inl rfl, lexStream_of_rest_nil hs hrest⟩
  | @tried s heos hdecides hnext ih =>
    have hrest : s.rest ≠ [] := by
      rw [TokenStream.isEos_fst hs] at heos
      exact List.isEmpty_eq_false_iff.mp heos
    obtain ⟨s', hmatch, hextends, hfound, hlex⟩ := lexStream_of_rest_ne_nil lexer depth hs hrest
    rcases isFirst_or_passesOver_of_settled ((decides_rules_iff hs).mp hdecides) with
      ⟨piece, middle, hread, hpiece⟩ | ⟨hread, hnone⟩
    · have hfirst : lexer.first? depth s.rest = some (piece.rule.kind, piece.text, middle) := hread
      have hleft : s'.rest = middle := hfound _ hfirst
      rw [hfirst] at hmatch hlex
      obtain ⟨pieces, rest, hdivides, hover, hothers⟩ := ih _ _ hmatch hextends.sound
      have hposition := hextends.position_eq hs (hleft.symm ▸ hpiece.append_eq)
      refine ⟨piece :: pieces, rest, .more hpiece (hleft ▸ hdivides), hover, ?_⟩
      rw [hlex, hothers, hposition, verdict_cons]
    · have hfirst : lexer.first? depth s.rest = none := hread
      rw [hfirst] at hlex
      refine ⟨[], s.rest, .done, .inr ⟨hrest, hnone⟩, ?_⟩
      rw [hlex, verdict, if_neg hrest]
      rfl

/-- With enough depth, a run over characters that are divided comes to an end, with the pieces that
divide them. -/
theorem eventually_completes (h : Divides lexer.grammar lexer.rules chars pieces rest)
    (hover : lexer.Over rest) :
    ∀ᶠ depth in atTop, ∀ s : TokenStream Char, s.Sound → s.rest = chars →
      lexer.Completes depth s ∧ lexer.lexStream depth s = verdict s.position pieces rest := by
  induction h with
  | @done chars =>
    rcases hover with rfl | ⟨hne, hnone⟩
    · refine .of_forall fun depth s hs hrest ↦ ⟨.ended ?_, lexStream_of_rest_nil hs hrest⟩
      rw [TokenStream.isEos_fst hs, hrest]
      rfl
    · filter_upwards [eventually_settled_of_passesOver hnone] with depth hsettled s hs hrest
      subst hrest
      have hfirst : lexer.first? depth s.rest = none := hsettled.2
      obtain ⟨s', -, -, -, hlex⟩ := lexStream_of_rest_ne_nil lexer depth hs hne
      refine ⟨completes_of_settled hs hne hsettled.1 fun found hfound ↦ ?_, ?_⟩
      · rw [hfirst] at hfound
        cases hfound
      · rw [hlex, hfirst, verdict, if_neg hne]
        rfl
  | @more chars middle rest piece pieces hpiece _ ih =>
    filter_upwards [eventually_settled_of_isFirst hpiece, ih hover]
      with depth hsettled hothers s hs hrest
    subst hrest
    have hfirst : lexer.first? depth s.rest = some (piece.rule.kind, piece.text, middle) :=
      hsettled.2
    have hne : s.rest ≠ [] := hpiece.ne_nil
    obtain ⟨s', -, hextends, hfound, hlex⟩ := lexStream_of_rest_ne_nil lexer depth hs hne
    have hleft : s'.rest = middle := hfound _ hfirst
    refine ⟨completes_of_settled hs hne hsettled.1 fun found hread t ht htrest ↦ ?_, ?_⟩
    · rw [hfirst] at hread
      cases hread
      exact (hothers t ht htrest).1
    · have hposition := hextends.position_eq hs (hleft.symm ▸ hpiece.append_eq)
      rw [hlex, hfirst, verdict_cons, ← hposition, (hothers s' hextends.sound hleft).2]

/-- A lexer returns the verdict on the pieces that its rules divide the text into. -/
theorem returns_iff {input : String} {result : Except SyntaxError (List (Lexeme κ))} :
    lexer.Returns input result ↔
      ∃ pieces rest, Divides lexer.grammar lexer.rules input.toList pieces rest ∧
        lexer.Over rest ∧ result = verdict 0 pieces rest := by
  have hs := TokenStream.sound_ofList input.toList
  constructor
  · rintro ⟨depth, rfl, hcompletes⟩
    have hdivides := hcompletes.exists_divides hs
    rw [TokenStream.rest_ofList] at hdivides
    exact hdivides
  · rintro ⟨pieces, rest, hdivides, hover, rfl⟩
    obtain ⟨depth, hdepth⟩ := (eventually_completes hdivides hover).exists
    obtain ⟨hcompletes, hlex⟩ := hdepth _ hs (TokenStream.rest_ofList _)
    exact ⟨depth, hlex, hcompletes⟩

/-- A lexer returns at most one answer. -/
theorem Returns.unique {input : String} {result result' : Except SyntaxError (List (Lexeme κ))}
    (h : lexer.Returns input result) (h' : lexer.Returns input result') : result = result' := by
  have hs := TokenStream.sound_ofList input.toList
  obtain ⟨pieces, rest, hdivides, hover, rfl⟩ := returns_iff.mp h
  obtain ⟨pieces', rest', hdivides', hover', rfl⟩ := returns_iff.mp h'
  obtain ⟨depth, hleft, hright⟩ :=
    ((eventually_completes hdivides hover).and (eventually_completes hdivides' hover')).exists
  exact (hleft _ hs (TokenStream.rest_ofList _)).2.symm.trans
    (hright _ hs (TokenStream.rest_ofList _)).2

end Run

section Divides

variable {g : Grammar Char ρ} {rules : List (LexRule κ ρ)} {chars rest text : List Char}
  {pieces : List (Piece κ ρ)}

/-- No piece is empty. -/
theorem chars_ne_nil_of_divides (h : Divides g rules chars pieces rest) :
    ∀ piece ∈ pieces, piece.chars ≠ [] := by
  induction h with
  | done => exact nofun
  | more hpiece _ ih => exact List.forall_mem_cons.mpr ⟨hpiece.chars_ne_nil, ih⟩

/-- No lexeme begins before the first piece. -/
theorem le_offset_of_mem_lexemes {offset : Nat} {lexeme : Lexeme κ}
    (h : lexeme ∈ Piece.lexemes offset pieces) : offset ≤ lexeme.offset := by
  induction pieces generalizing offset with
  | nil => cases h
  | cons piece pieces ih =>
    rcases List.mem_append.mp h with hfirst | hothers
    · obtain ⟨kind, -, rfl⟩ := Option.map_eq_some_iff.mp (Option.mem_toList.mp hfirst)
      exact le_rfl
    · exact (Nat.le_add_right _ _).trans (ih hothers)

/-- Each piece moves the offset of those after it. -/
theorem pairwise_offset_lexemes (h : ∀ piece ∈ pieces, piece.chars ≠ []) (offset : Nat) :
    (Piece.lexemes offset pieces).Pairwise fun lexeme later ↦ lexeme.offset < later.offset := by
  induction pieces generalizing offset with
  | nil => exact .nil
  | cons piece pieces ih =>
    obtain ⟨hpiece, hothers⟩ := List.forall_mem_cons.mp h
    rw [Piece.lexemes, List.pairwise_append]
    refine ⟨?_, ih hothers _, ?_⟩
    · rw [lexemesOf]
      cases piece.rule.kind <;> simp
    · intro lexeme hlexeme later hlater
      obtain ⟨kind, -, rfl⟩ := Option.map_eq_some_iff.mp (Option.mem_toList.mp hlexeme)
      have hpos := List.length_pos_iff.mpr hpiece
      have hle := le_offset_of_mem_lexemes hlater
      show offset < later.offset
      omega

/-- A parser that returns wherever it is called on a text comes to an end on all that can be left of
it. -/
theorem exists_reads_of_returns {p : Parser Char ρ α} {left : List Char}
    (h : ∀ s : TokenStream Char, s.Reached text → ∃ outcome s', g.Returns p s outcome s')
    (hleft : left <:+ text) : ∃ reading, g.Reads p left reading := by
  obtain ⟨front, rfl⟩ := hleft
  have reached := TokenStream.reached_consumed (front ++ left) front.length (by simp)
  obtain ⟨outcome, s', hcall⟩ := h _ reached
  obtain ⟨reading, hreads, -⟩ := hcall.reads reached.sound_and_source.1
  have hrest : (TokenStream.consumed (front ++ left) front.length).rest = left := by
    rw [TokenStream.rest, TokenStream.source_consumed]
    exact List.drop_left
  exact ⟨reading, hrest ▸ hreads⟩

/-- Where the rules come to an end on everything that can be left of a text, the text is divided. -/
theorem exists_divides
    (h : ∀ left, left <:+ text → ∀ rule ∈ rules, ∃ reading, g.Reads rule.matcher left reading)
    (hchars : chars <:+ text) :
    ∃ pieces rest, Divides g rules chars pieces rest ∧ (rest = [] ∨ Stuck g rules rest) := by
  induction hlength : chars.length using Nat.strong_induction_on generalizing chars with
  | _ length ih =>
    by_cases hnil : chars = []
    · exact ⟨[], chars, .done, .inl hnil⟩
    · rcases exists_isFirst_or_passesOver (h chars hchars) with ⟨piece, middle, hpiece⟩ | hnone
      · have hmiddle : middle <:+ chars := ⟨piece.chars, hpiece.append_eq.symm⟩
        have hshorter : middle.length < length := by
          have hpos := List.length_pos_iff.mpr hpiece.chars_ne_nil
          rw [← hlength, hpiece.append_eq, List.length_append]
          omega
        obtain ⟨pieces, rest, hdivides, hover⟩ := ih _ hshorter (hmiddle.trans hchars) rfl
        exact ⟨piece :: pieces, rest, .more hpiece hdivides, hover⟩
      · exact ⟨[], chars, .done, .inr ⟨hnil, hnone⟩⟩

end Divides

/-- A lexer made by any sequence of calls, on any text. It returns lexemes exactly if pieces divide
the whole text, and they are the lexemes of these pieces, at offsets that increase. It returns an
error exactly if pieces divide the front of the text and no rule takes a character of the rest. The
error names the number of characters in front of the rest, and the first ones of the rest, sixteen
at most. There is such a result, and only one, if the parsers of all rules return wherever they are
called on the text. -/
theorem returns_iff_divides (g : Grammar Char ρ) (registrations : List (Registration κ ρ))
    (input : String) :
    (∀ lexemes, (registered g registrations).Returns input (.ok lexemes) ↔
      ∃ pieces, Divides g (Registration.inOrder registrations) input.toList pieces [] ∧
        lexemes = Piece.lexemes 0 pieces) ∧
    (∀ lexemes, (registered g registrations).Returns input (.ok lexemes) →
      lexemes.Pairwise fun lexeme later ↦ lexeme.offset < later.offset) ∧
    (∀ e, (registered g registrations).Returns input (.error e) ↔
      ∃ pieces rest, Divides g (Registration.inOrder registrations) input.toList pieces rest ∧
        Stuck g (Registration.inOrder registrations) rest ∧
        e = ⟨(pieces.flatMap Piece.chars).length, String.ofList (rest.take 16)⟩) ∧
    ((∀ rule ∈ Registration.inOrder registrations, ∀ s : TokenStream Char,
      s.Reached input.toList → ∃ outcome s', g.Returns rule.matcher s outcome s') →
        ∃ result, (registered g registrations).Returns input result) ∧
    ∀ result result', (registered g registrations).Returns input result →
      (registered g registrations).Returns input result' → result = result' := by
  have hreturns : ∀ result, (registered g registrations).Returns input result ↔
      ∃ pieces rest, Divides g (Registration.inOrder registrations) input.toList pieces rest ∧
        (rest = [] ∨ Stuck g (Registration.inOrder registrations) rest) ∧
        result = verdict 0 pieces rest := by
    intro result
    simp only [returns_iff, Over, grammar_registered, rules_registered]
  have hok : ∀ lexemes, (registered g registrations).Returns input (.ok lexemes) ↔
      ∃ pieces, Divides g (Registration.inOrder registrations) input.toList pieces [] ∧
        lexemes = Piece.lexemes 0 pieces := by
    intro lexemes
    simp only [hreturns, eq_verdict_iff_of_ok]
    constructor
    · rintro ⟨pieces, rest, hdivides, -, rfl, heq⟩
      exact ⟨pieces, hdivides, heq⟩
    · rintro ⟨pieces, hdivides, heq⟩
      exact ⟨pieces, [], hdivides, .inl rfl, rfl, heq⟩
  refine ⟨hok, ?_, ?_, ?_, fun _ _ ↦ Returns.unique⟩
  · intro lexemes hlexemes
    obtain ⟨pieces, hdivides, rfl⟩ := (hok lexemes).mp hlexemes
    exact pairwise_offset_lexemes (chars_ne_nil_of_divides hdivides) 0
  · intro e
    simp only [hreturns, eq_verdict_iff_of_error, Nat.zero_add]
    constructor
    · rintro ⟨pieces, rest, hdivides, hover, hrest, heq⟩
      exact ⟨pieces, rest, hdivides, hover.resolve_left hrest, heq⟩
    · rintro ⟨pieces, rest, hdivides, hstuck, heq⟩
      exact ⟨pieces, rest, hdivides, .inr hstuck, hstuck.1, heq⟩
  · intro hrules
    obtain ⟨pieces, rest, hdivides, hover⟩ := exists_divides
      (fun left hleft rule hrule ↦ exists_reads_of_returns (hrules rule hrule) hleft)
      List.suffix_rfl
    exact ⟨_, (hreturns _).mpr ⟨pieces, rest, hdivides, hover, rfl⟩⟩

/-- Rules for either of two letters, for spaces, and for the first of the letters. -/
def letterRules : List (Registration Nat fun _ : Unit ↦ Unit) :=
  [.pattern 1 ((Parser.oneOf "ab").map String.singleton), .skip (Parser.oneOf " "), .literal 0 "a"]

/-- The fixed text comes first although it was registered last. -/
theorem returns_iff_divides_letters :
    (registered Grammar.empty letterRules).Returns "ab " (.ok [⟨0, "a", 0⟩, ⟨1, "b", 1⟩]) := by
  let fixed : LexRule Nat fun _ : Unit ↦ Unit := ⟨some 0, Parser.text "a"⟩
  let either : LexRule Nat fun _ : Unit ↦ Unit := ⟨some 1, (Parser.oneOf "ab").map String.singleton⟩
  let blank : LexRule Nat fun _ : Unit ↦ Unit :=
    ⟨none, (Parser.oneOf " ").mapTokens fun tokens _ ↦ String.ofList tokens⟩
  have hfixed : fixed.PassesOver Grammar.empty ['b', ' '] :=
    LexRule.passesOver_iff.mpr ⟨.mismatch, ⟨0, by cbv, by simp⟩, rfl⟩
  have hfixed' : fixed.PassesOver Grammar.empty [' '] :=
    LexRule.passesOver_iff.mpr ⟨.mismatch, ⟨0, by cbv, by simp⟩, rfl⟩
  have heither : either.PassesOver Grammar.empty [' '] :=
    LexRule.passesOver_iff.mpr ⟨.mismatch, ⟨0, by cbv, by simp⟩, rfl⟩
  have hfirst : (⟨fixed, ['a'], "a"⟩ : Piece Nat _).IsFirst Grammar.empty
      (Registration.inOrder letterRules) ['a', 'b', ' '] ['b', ' '] :=
    Piece.isFirst_iff.mpr ⟨[], [either, blank], rfl, by simp, by simp, 0, by cbv, by simp⟩
  have hsecond : (⟨either, ['b'], "b"⟩ : Piece Nat _).IsFirst Grammar.empty
      (Registration.inOrder letterRules) ['b', ' '] [' '] :=
    Piece.isFirst_iff.mpr
      ⟨[fixed], [blank], rfl, by simpa using hfixed, by simp, 0, by cbv, by simp⟩
  have hthird : (⟨blank, [' '], " "⟩ : Piece Nat _).IsFirst Grammar.empty
      (Registration.inOrder letterRules) [' '] [] :=
    Piece.isFirst_iff.mpr ⟨[fixed, either], [], rfl, by simpa using ⟨hfixed', heither⟩, by simp,
      0, by cbv, by simp⟩
  exact ((returns_iff_divides Grammar.empty letterRules "ab ").1 _).mpr
    ⟨_, .more hfirst (.more hsecond (.more hthird .done)), rfl⟩

end Lexer

end DebugLink
