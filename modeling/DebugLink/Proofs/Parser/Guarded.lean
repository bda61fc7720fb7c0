import DebugLink.Parser.Lexer
import DebugLink.Proofs.Parser.Lexing

/-!
Recursive grammars that come to an end. A parser is guarded if it calls rules only behind a token
(`Parser.guarded`), which its description shows: somewhere before the call stands a part that takes
a token with every match (`Parser.consumes`). If all rules of a grammar are guarded, each nested
call has fewer tokens left than the one around it, also when an alternative was given up or a part
matched nothing in between, so one more depth than there are tokens is always enough, and more
changes nothing (`Grammar.settles_of_guarded`).
-/

set_option autoImplicit false

namespace DebugLink

variable {τ ι α : Type} {ρ : ι → Type}

/-! ### Descriptions -/

namespace Parser

/-- Whether every match takes a token, whatever the rules match. -/
def consumes : {α : Type} → Parser τ ρ α → Bool
  | _, satisfy _ => true
  | _, literal text => !text.isEmpty
  | _, both first second => first.consumes || second.consumes
  | _, either first second => first.consumes && second.consumes
  | _, several item least _ => decide (0 < least) && item.consumes
  | _, mapTokens inner _ => inner.consumes
  | _, call _ => false

/-- Whether rules are called only behind a token. -/
def guarded : {α : Type} → Parser τ ρ α → Bool
  | _, satisfy _ => true
  | _, literal _ => true
  | _, both first second => first.guarded && (first.consumes || second.guarded)
  | _, either first second => first.guarded && second.guarded
  | _, several item _ _ => item.guarded
  | _, mapTokens inner _ => inner.guarded
  | _, call _ => false

end Parser

/-! ### Repetitions -/

namespace Reader

variable {reader reader' : Reader τ α} {tokens : List τ}

/-- A repetition looks only at what its rounds leave. -/
theorem iterate_congr {limit : Option Nat}
    (h : ∀ left : List τ, left.length ≤ tokens.length → reader left = reader' left) :
    reader.iterate limit tokens = reader'.iterate limit tokens := by
  fun_induction reader.iterate limit tokens with
  | case1 tokens => rw [iterate_zero]
  | case2 limit tokens hlimit hread =>
    rw [iterate_of_tooDeep hlimit ((h tokens le_rfl).symm.trans hread)]
  | case3 limit tokens hlimit hread =>
    rw [iterate_of_mismatch ((h tokens le_rfl).symm.trans hread)]
  | case4 limit tokens hlimit first value rest hread hshorter ih =>
    rw [iterate_of_matched hlimit ((h tokens le_rfl).symm.trans hread) hshorter,
      ih fun left hleft ↦ h left (hleft.trans hshorter.le)]
  | case5 limit tokens hlimit first value rest hread hstalled =>
    rw [iterate_of_stalled hlimit ((h tokens le_rfl).symm.trans hread) hstalled]

theorem iterate_ne_tooDeep {limit : Option Nat}
    (h : ∀ left : List τ, left.length ≤ tokens.length → reader left ≠ .tooDeep) :
    reader.iterate limit tokens ≠ .tooDeep := by
  fun_induction reader.iterate limit tokens with
  | case1 tokens => simp
  | case2 limit tokens hlimit hread => exact absurd hread (h tokens le_rfl)
  | case3 limit tokens hlimit hread => simp
  | case4 limit tokens hlimit first value rest hread hshorter ih =>
    have hrest := ih fun left hleft ↦ h left (hleft.trans hshorter.le)
    cases hothers : reader.iterate (limit.map (· - 1)) rest with
    | matched others values last => simp
    | mismatch => simp
    | tooDeep => exact absurd hothers hrest
  | case5 limit tokens hlimit first value rest hread hstalled => simp

/-- A repetition takes a token if it matches at all and each of its rounds takes one. -/
theorem iterate_takes {limit : Option Nat} {read rest : List τ} {values : List α}
    (h : ∀ left first value rest', reader left = .matched first value rest' → first ≠ [])
    (hread : reader.iterate limit tokens = .matched read values rest) (hvalues : values ≠ []) :
    read ≠ [] := by
  rw [iterate] at hread
  split_ifs at hread
  · cases hread
    exact absurd rfl hvalues
  · split at hread
    · cases hread
    · cases hread
      exact absurd rfl hvalues
    · rename_i first value rest' hfirst
      have htaken := h _ _ _ _ hfirst
      split_ifs at hread
      · obtain ⟨others, found, last, -, heq⟩ := Reading.bind_eq_matched_iff.mp hread
        cases heq
        exact List.append_ne_nil_of_left_ne_nil htaken _
      · cases hread
        exact htaken

/-- All rounds but the last one take a token. -/
theorem length_le_of_iterate {limit : Option Nat} {read rest : List τ} {values : List α}
    (h : reader.Splits) (hread : reader.iterate limit tokens = .matched read values rest) :
    values.length ≤ read.length + 1 := by
  fun_induction reader.iterate limit tokens generalizing read values rest with
  | case1 tokens =>
    cases hread
    exact Nat.zero_le _
  | case2 limit tokens hlimit hdeep => cases hread
  | case3 limit tokens hlimit hmismatch =>
    cases hread
    exact Nat.zero_le _
  | case4 limit tokens hlimit first value rest' hfirst hshorter ih =>
    obtain ⟨others, found, last, hothers, heq⟩ := Reading.bind_eq_matched_iff.mp hread
    cases heq
    have hround := ih hothers
    have hsplit := congrArg List.length (h hfirst)
    simp only [List.length_append, List.length_cons] at hsplit ⊢
    omega
  | case5 limit tokens hlimit first value rest' hfirst hstalled =>
    cases hread
    exact Nat.le_add_left _ _

end Reader

/-! ### Parsers -/

namespace Parser

variable {calls calls' : (rule : ι) → Reader τ (ρ rule)} {tokens : List τ}

/-- What is said to consume takes a token with every match. -/
theorem takes_of_consumes {p : Parser τ ρ α} (hp : p.consumes = true) {tokens first rest : List τ}
    {value : α} (hread : p.read calls tokens = .matched first value rest) : first ≠ [] := by
  induction p generalizing tokens first rest with
  | satisfy accepts =>
    cases tokens with
    | nil => cases hread
    | cons token others =>
      simp only [read] at hread
      split_ifs at hread
      cases hread
      exact List.cons_ne_nil _ _
  | literal text =>
    simp only [read] at hread
    split at hread
    · cases hread
      simpa [consumes] using hp
    · cases hread
  | both p q ihFirst ihSecond =>
    simp only [read, Reading.bind_eq_matched_iff] at hread
    obtain ⟨readFirst, a, middle, hfirst, readSecond, b, last, hsecond, heq⟩ := hread
    cases heq
    rcases (Bool.or_eq_true _ _).mp hp with hp | hp
    · exact List.append_ne_nil_of_left_ne_nil (ihFirst hp hfirst) _
    · exact List.append_ne_nil_of_right_ne_nil _ (ihSecond hp hsecond)
  | either p q ihFirst ihSecond =>
    obtain ⟨hfirst, hsecond⟩ := (Bool.and_eq_true _ _).mp hp
    simp only [read] at hread
    split at hread
    · exact ihSecond hsecond hread
    · exact ihFirst hfirst hread
  | several item least limit ih =>
    obtain ⟨hleast, hitem⟩ := (Bool.and_eq_true _ _).mp hp
    simp only [read, Reading.bind_eq_matched_iff] at hread
    obtain ⟨found, items, last, hitems, heq⟩ := hread
    split_ifs at heq with hfew
    cases heq
    have hpos : 0 < least := of_decide_eq_true hleast
    refine Reader.iterate_takes (fun left first value rest h ↦ ih hitem h) hitems ?_
    exact List.ne_nil_of_length_pos (hpos.trans_le (Nat.le_of_not_lt hfew))
  | mapTokens inner transform ih =>
    simp only [read, Reading.bind_eq_matched_iff] at hread
    obtain ⟨found, a, last, hinner, heq⟩ := hread
    cases heq
    exact ih hp hinner
  | call rule => exact absurd hp Bool.false_ne_true

section Splits

variable (hcalls : ∀ i, (calls i).Splits)
include hcalls

theorem length_le_of_read {p : Parser τ ρ α} {first rest : List τ} {value : α}
    (hread : p.read calls tokens = .matched first value rest) : rest.length ≤ tokens.length := by
  rw [read_splits hcalls p hread, List.length_append]
  exact Nat.le_add_left _ _

theorem length_lt_of_consumes {p : Parser τ ρ α} (hp : p.consumes = true) {first rest : List τ}
    {value : α} (hread : p.read calls tokens = .matched first value rest) :
    rest.length < tokens.length := by
  have htaken := List.length_pos_iff.mpr (takes_of_consumes hp hread)
  rw [read_splits hcalls p hread, List.length_append]
  omega

/-- A parser calls rules on what is left of its tokens, and on nothing else. -/
theorem read_congr (p : Parser τ ρ α) {bound : Nat} (htokens : tokens.length ≤ bound)
    (h : ∀ i left, left.length ≤ bound → calls i left = calls' i left) :
    p.read calls tokens = p.read calls' tokens := by
  induction p generalizing tokens with
  | satisfy accepts => rfl
  | literal text => rfl
  | both p q ihFirst ihSecond =>
    simp only [read]
    rw [← ihFirst htokens]
    cases hfirst : p.read calls tokens with
    | matched first a rest =>
      simp only [Reading.bind_matched]
      rw [ihSecond ((length_le_of_read hcalls hfirst).trans htokens)]
    | mismatch => rfl
    | tooDeep => rfl
  | either p q ihFirst ihSecond =>
    simp only [read]
    rw [← ihFirst htokens, ← ihSecond htokens]
  | several item least limit ih =>
    simp only [read]
    rw [Reader.iterate_congr fun left hleft ↦ ih (hleft.trans htokens)]
  | mapTokens inner transform ih =>
    simp only [read]
    rw [ih htokens]
  | call rule => exact h rule tokens htokens

/-- A guarded parser calls rules only where fewer tokens are left. -/
theorem read_congr_of_guarded {p : Parser τ ρ α} (hp : p.guarded = true) {bound : Nat}
    (htokens : tokens.length ≤ bound)
    (h : ∀ i left, left.length < bound → calls i left = calls' i left) :
    p.read calls tokens = p.read calls' tokens := by
  induction p generalizing tokens with
  | satisfy accepts => rfl
  | literal text => rfl
  | both p q ihFirst ihSecond =>
    obtain ⟨hfirst, hsecond⟩ := (Bool.and_eq_true _ _).mp hp
    simp only [read]
    rw [← ihFirst hfirst htokens]
    cases hread : p.read calls tokens with
    | matched first a rest =>
      simp only [Reading.bind_matched]
      -- The second part is behind a token, or guarded itself.
      rcases (Bool.or_eq_true _ _).mp hsecond with hconsumes | hguarded
      · have hshorter := (length_lt_of_consumes hcalls hconsumes hread).trans_le htokens
        rw [read_congr hcalls q le_rfl fun i left hleft ↦ h i left (hleft.trans_lt hshorter)]
      · rw [ihSecond hguarded ((length_le_of_read hcalls hread).trans htokens)]
    | mismatch => rfl
    | tooDeep => rfl
  | either p q ihFirst ihSecond =>
    obtain ⟨hfirst, hsecond⟩ := (Bool.and_eq_true _ _).mp hp
    simp only [read]
    rw [← ihFirst hfirst htokens, ← ihSecond hsecond htokens]
  | several item least limit ih =>
    simp only [read]
    rw [Reader.iterate_congr fun left hleft ↦ ih hp (hleft.trans htokens)]
  | mapTokens inner transform ih =>
    simp only [read]
    rw [ih hp htokens]
  | call rule => exact absurd hp Bool.false_ne_true

/-- A parser is too deep only where a rule is that it calls. -/
theorem read_ne_tooDeep (p : Parser τ ρ α) {bound : Nat} (htokens : tokens.length ≤ bound)
    (h : ∀ i left, left.length ≤ bound → calls i left ≠ .tooDeep) :
    p.read calls tokens ≠ .tooDeep := by
  induction p generalizing tokens with
  | satisfy accepts =>
    cases tokens with
    | nil => simp [read]
    | cons token others =>
      simp only [read]
      split_ifs <;> simp
  | literal text =>
    simp only [read]
    split <;> simp
  | both p q ihFirst ihSecond =>
    simp only [read]
    cases hfirst : p.read calls tokens with
    | matched first a rest =>
      have hrest := ihSecond ((length_le_of_read hcalls hfirst).trans htokens)
      rw [Reading.bind_matched]
      cases hsecond : q.read calls rest with
      | matched second b last => simp
      | mismatch => simp
      | tooDeep => exact absurd hsecond hrest
    | mismatch => simp
    | tooDeep => exact absurd hfirst (ihFirst htokens)
  | either p q ihFirst ihSecond =>
    simp only [read]
    cases hfirst : p.read calls tokens with
    | matched first a rest => simp
    | mismatch => exact ihSecond htokens
    | tooDeep => exact absurd hfirst (ihFirst htokens)
  | several item least limit ih =>
    have hitems : Reader.iterate (item.read calls) limit tokens ≠ .tooDeep :=
      Reader.iterate_ne_tooDeep fun left hleft ↦ ih (hleft.trans htokens)
    simp only [read]
    cases hread : Reader.iterate (item.read calls) limit tokens with
    | matched found values rest =>
      simp only [Reading.bind_matched]
      split_ifs <;> simp
    | mismatch => simp
    | tooDeep => exact absurd hread hitems
  | mapTokens inner transform ih =>
    simp only [read]
    cases hread : inner.read calls tokens with
    | matched found a rest => simp
    | mismatch => simp
    | tooDeep => exact absurd hread (ih htokens)
  | call rule => exact h rule tokens htokens

/-- For a guarded parser it is enough that no call is too deep that has fewer tokens left. -/
theorem read_ne_tooDeep_of_guarded {p : Parser τ ρ α} (hp : p.guarded = true)
    (h : ∀ i left, left.length < tokens.length → calls i left ≠ .tooDeep) :
    p.read calls tokens ≠ .tooDeep := by
  -- Rules that match nothing unless fewer tokens are left make no difference.
  let shorter : (rule : ι) → Reader τ (ρ rule) := fun i left ↦
    if left.length < tokens.length then calls i left else .mismatch
  have hsplits : ∀ i, (shorter i).Splits := by
    intro i left first value rest hread
    simp only [shorter] at hread
    split_ifs at hread
    exact hcalls i hread
  have hsame : p.read calls tokens = p.read shorter tokens :=
    read_congr_of_guarded hcalls hp le_rfl fun i left hleft ↦ (if_pos hleft).symm
  rw [hsame]
  refine read_ne_tooDeep hsplits p le_rfl fun i left _ ↦ ?_
  simp only [shorter]
  split_ifs with hleft
  · exact h i left hleft
  · simp

end Splits

end Parser

/-! ### Grammars -/

namespace Grammar

variable {g : Grammar τ ρ} {depth : Nat}

/-- A grammar whose rules call rules only behind a token. -/
def Guarded (g : Grammar τ ρ) : Prop :=
  ∀ i p, g.rule i = some p → p.guarded = true

/-- One call more than there are tokens is enough, by induction on how many there are. -/
theorem Guarded.read_ne_tooDeep (hg : g.Guarded) {tokens : List τ} (h : tokens.length < depth)
    (i : ι) : g.read depth i tokens ≠ .tooDeep := by
  induction depth generalizing tokens i with
  | zero => exact absurd h (Nat.not_lt_zero _)
  | succ depth ih =>
    rw [read]
    cases hrule : g.rule i with
    | some p =>
      refine Parser.read_ne_tooDeep_of_guarded (g.read_splits depth) (hg i p hrule) ?_
      exact fun j left hleft ↦ ih (hleft.trans_le (Nat.le_of_lt_succ h)) j
    | none => simp

theorem Guarded.read_parser_ne_tooDeep (hg : g.Guarded) (p : Parser τ ρ α) {tokens : List τ}
    (h : tokens.length < depth) : p.read (g.read depth) tokens ≠ .tooDeep :=
  Parser.read_ne_tooDeep (g.read_splits depth) p le_rfl
    fun i _ hleft ↦ hg.read_ne_tooDeep (hleft.trans_lt h) i

/-- A grammar that comes to an end on all tokens. -/
structure Settles (g : Grammar τ ρ) : Prop where
  /-- What a rule makes of tokens depends on calls only where fewer of them are left. -/
  later : ∀ i p, g.rule i = some p → ∀ (calls calls' : (rule : ι) → Reader τ (ρ rule)) tokens,
    (∀ j, (calls j).Splits) →
      (∀ j (left : List τ), left.length < tokens.length → calls j left = calls' j left) →
        p.read calls tokens = p.read calls' tokens
  /-- On a stream a rule needs at most one call more, nested, than there are tokens left. -/
  enough : ∀ i (s : TokenStream τ) depth, s.Sound → s.remaining < depth →
    (g.run depth i s).1 ≠ .tooDeep
  /-- All rounds of a repetition but the last one take a token. -/
  stops : ∀ {α : Type} (p : Parser τ ρ α) limit depth (s s' : TokenStream τ) found, s.Sound →
    Step.iterate (p.attempt (g.run depth)) limit s = (.matched found, s') →
      found.value.length ≤ found.tokens.length + 1
  /-- One call more than there are tokens is enough for every parser, and more changes nothing. -/
  whole : ∀ {α : Type} (p : Parser τ ρ α) tokens depth, tokens.length < depth →
    g.parseAll depth p tokens ≠ .tooDeep ∧
      g.parseAll depth p tokens = g.parseAll (tokens.length + 1) p tokens

/-- Parsing a whole list reads it and looks whether anything is left. -/
theorem parseAll_eq (g : Grammar τ ρ) (depth : Nat) (p : Parser τ ρ α) (tokens : List τ) :
    g.parseAll depth p tokens =
      match p.read (g.read depth) tokens with
      | .matched first value rest => if rest.isEmpty then .matched ⟨first, value⟩ else .mismatch
      | .mismatch => .mismatch
      | .tooDeep => .tooDeep := by
  have hrealizes := Parser.realizes_tryParse (fun i ↦ (g.realizes_run depth i).attempts) p
  obtain ⟨s, hparse, hextends, hrest⟩ :=
    hrealizes (TokenStream.ofList tokens) (TokenStream.sound_ofList tokens)
  rw [TokenStream.rest_ofList] at hparse hrest
  rw [parseAll, hparse]
  cases hread : p.read (g.read depth) tokens with
  | matched first value rest =>
    rw [hread] at hrest
    simp only [Reading.outcome, TokenStream.isEos_fst hextends.sound, hrest, Reading.left]
  | mismatch => rfl
  | tooDeep => rfl

/-- Every grammar with guarded rules comes to an end. -/
theorem settles_of_guarded (hg : g.Guarded) : g.Settles where
  later i p hrule calls calls' tokens hsplits h :=
    Parser.read_congr_of_guarded hsplits (hg i p hrule) le_rfl h
  enough i s depth hs h := by
    obtain ⟨s', hrun, -, -⟩ := g.realizes_run depth i s hs
    rw [TokenStream.remaining_eq] at h
    rw [hrun]
    exact fun hdeep ↦ hg.read_ne_tooDeep h i (Reading.outcome_eq_tooDeep_iff.mp hdeep)
  stops p limit depth s s' found hs h := by
    have hattempts := Parser.attempts_attempt (fun i ↦ (g.realizes_run depth i).attempts) p
    have hread := ((hattempts.iterate limit).matched hs h).1
    exact Reader.length_le_of_iterate (Parser.read_splits (g.read_splits depth) p) hread
  whole p tokens depth h := by
    have hleast := hg.read_parser_ne_tooDeep p (Nat.lt_succ_self tokens.length)
    have hsame := Parser.read_deeper (fun i ↦ g.read_deeper (Nat.succ_le_of_lt h) i) p tokens hleast
    rw [parseAll_eq, parseAll_eq, hsame]
    refine ⟨?_, rfl⟩
    split
    · split_ifs <;> simp
    · simp
    · rename_i hdeep
      exact absurd hdeep hleast

end Grammar

/-! ### Lexers -/

/-- A lexer that comes to an end on all texts: none of its rules is too deep, and each element that
it finds takes a character. -/
structure Lexer.Settles {κ : Type} {ρ : ι → Type} (lexer : Lexer κ ρ) : Prop where
  enough : ∀ rule ∈ lexer.literals ++ lexer.patterns, ∀ (s : TokenStream Char) depth, s.Sound →
    (rule.matcher.tryParse (lexer.grammar.run depth) s).1 ≠ .tooDeep
  advances : ∀ (s s' : TokenStream Char) depth found, s.Sound →
    Lexer.firstMatch (lexer.grammar.run depth) (lexer.literals ++ lexer.patterns) s =
      (some found, s') → s'.remaining < s.remaining

/-- A lexer whose rules call no others comes to an end. -/
theorem Lexer.settles_of_isEmpty {κ : Type} {ρ : ι → Type} [IsEmpty ι] (lexer : Lexer κ ρ) :
    lexer.Settles where
  enough rule _ s depth hs := by
    have hrealizes := Parser.realizes_tryParse
      (fun i ↦ (lexer.grammar.realizes_run depth i).attempts) rule.matcher
    obtain ⟨s', hparse, -, -⟩ := hrealizes s hs
    have hread : rule.matcher.read (lexer.grammar.read depth) s.rest ≠ .tooDeep :=
      Parser.read_ne_tooDeep (lexer.grammar.read_splits depth) rule.matcher le_rfl
        fun i ↦ isEmptyElim i
    rw [hparse]
    exact fun hdeep ↦ hread (Reading.outcome_eq_tooDeep_iff.mp hdeep)
  advances s s' depth found hs h := by
    obtain ⟨t, hmatch, -, hrest⟩ := firstMatch_eq
      (fun i ↦ (lexer.grammar.realizes_run depth i).attempts)
      (lexer.literals ++ lexer.patterns) hs
    obtain ⟨hfound, rfl⟩ := Prod.mk.inj (hmatch.symm.trans h)
    obtain ⟨⟨kind, text, rest⟩, hfirst, -⟩ := Option.map_eq_some_iff.mp hfound
    rw [TokenStream.remaining_eq, TokenStream.remaining_eq, hrest _ hfirst]
    exact length_lt_of_first? hfirst

end DebugLink
