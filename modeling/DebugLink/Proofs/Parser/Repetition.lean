import DebugLink.Proofs.Parser.Consumption
import DebugLink.Proofs.Parser.Derived

/-!
Repetition a fixed number of times against a parser put after itself as often. Matching a parser so
many times in a row is a chain of calls, each from where the one before it has stopped
(`Grammar.Rounds`). Putting the parser after itself (`Parser.inSequence`) matches exactly if there
is such a chain. Repeating it breaks off after a match of nothing, so it matches exactly if there is
a chain in which every match but the last one takes a token (`Grammar.several_iff_rounds`). Where
both match, they take the same tokens and yield the same values.
-/

set_option autoImplicit false

namespace DebugLink

open Filter

variable {τ ι α : Type} {ρ : ι → Type}

/-- Several matches as one: all their tokens, and the list of their values. -/
def Parsed.joined (rounds : List (Parsed τ α)) : Parsed τ (List α) :=
  ⟨rounds.flatMap Parsed.tokens, rounds.map Parsed.value⟩

/-- Whether every match takes a token, except perhaps the last one. -/
def Parsed.Progress (rounds : List (Parsed τ α)) : Prop :=
  ∀ round ∈ rounds.dropLast, round.tokens ≠ []

theorem Parsed.joined_cons (round : Parsed τ α) (rounds : List (Parsed τ α)) :
    joined (round :: rounds) =
      ⟨round.tokens ++ (joined rounds).tokens, round.value :: (joined rounds).value⟩ := rfl

theorem Parsed.joined_concat (rounds : List (Parsed τ α)) (round : Parsed τ α) :
    joined (rounds ++ [round]) =
      ⟨(joined rounds).tokens ++ round.tokens, (joined rounds).value ++ [round.value]⟩ := by
  simp [joined]

/-- The parser `count` more times after itself: `count + 1` matches, whose values are collected. -/
def Parser.inSequence (p : Parser τ ρ α) : (count : Nat) → Parser τ ρ (List α)
  | 0 => p.map fun value ↦ [value]
  | count + 1 => ((p.inSequence count).both p).map fun found ↦ found.1 ++ [found.2]

/-! ### Rounds on lists -/

namespace Reader

variable {reader : Reader τ α} {tokens middle rest : List τ} {rounds : List (Parsed τ α)}

/-- Matches one after the other, each of what the one before it has left. -/
inductive InRow (reader : Reader τ α) : List τ → List (Parsed τ α) → List τ → Prop
  | none {tokens : List τ} : InRow reader tokens [] tokens
  | more {tokens middle rest : List τ} {round : Parsed τ α} {rounds : List (Parsed τ α)} :
    reader tokens = .matched round.tokens round.value middle → InRow reader middle rounds rest →
      InRow reader tokens (round :: rounds) rest

theorem InRow.concat {round : Parsed τ α} (h : reader.InRow tokens rounds middle)
    (hround : reader middle = .matched round.tokens round.value rest) :
    reader.InRow tokens (rounds ++ [round]) rest := by
  induction h with
  | none => exact .more hround .none
  | more hfirst _ ih => exact .more hfirst (ih hround)

theorem InRow.exists_of_concat {round : Parsed τ α}
    (h : reader.InRow tokens (rounds ++ [round]) rest) :
    ∃ middle, reader.InRow tokens rounds middle ∧
      reader middle = .matched round.tokens round.value rest := by
  induction rounds generalizing tokens with
  | nil =>
    obtain _ | ⟨hround, _ | _⟩ := h
    exact ⟨tokens, .none, hround⟩
  | cons first rounds ih =>
    obtain _ | ⟨hfirst, hothers⟩ := h
    obtain ⟨middle, hrounds, hround⟩ := ih hothers
    exact ⟨middle, .more hfirst hrounds, hround⟩

/-- A repetition goes through matches in a row as long as they take tokens. -/
theorem iterate_of_inRow (hreader : reader.Splits) (h : reader.InRow tokens rounds rest)
    (hprogress : Parsed.Progress rounds) :
    reader.iterate (some rounds.length) tokens =
      .matched (Parsed.joined rounds).tokens (Parsed.joined rounds).value rest := by
  induction h with
  | none => exact iterate_zero
  | @more tokens middle rest round rounds hround hrounds ih =>
    have hlimit : some (rounds.length + 1) ≠ some 0 := by simp
    rw [List.length_cons, Parsed.joined_cons]
    by_cases hshorter : middle.length < tokens.length
    · rw [iterate_of_matched hlimit hround hshorter, Option.map_some, Nat.add_sub_cancel,
        ih fun later hlater ↦ hprogress later ?_]
      · rfl
      · cases rounds with
        | nil => cases hlater
        | cons second others => exact List.mem_cons_of_mem _ hlater
    · -- A match that takes nothing is the last one.
      cases rounds with
      | nil =>
        obtain _ | _ := hrounds
        rw [iterate_of_stalled hlimit hround hshorter]
        simp [Parsed.joined]
      | cons second others =>
        have htaken := List.length_pos_iff.mpr (hprogress round List.mem_cons_self)
        have hsplit := congrArg List.length (hreader hround)
        rw [List.length_append] at hsplit
        omega

/-- A repetition that reaches its limit goes through as many matches, and each but the last one
takes a token. -/
theorem inRow_of_iterate (hreader : reader.Splits) {limit : Nat} {first : List τ} {values : List α}
    (h : reader.iterate (some limit) tokens = .matched first values rest)
    (hlimit : limit ≤ values.length) :
    ∃ rounds, reader.InRow tokens rounds rest ∧ rounds.length = limit ∧
      Parsed.joined rounds = ⟨first, values⟩ ∧ Parsed.Progress rounds := by
  induction limit generalizing tokens first values with
  | zero =>
    rw [iterate_zero] at h
    cases h
    exact ⟨[], .none, rfl, rfl, nofun⟩
  | succ limit ih =>
    have hopen : some (limit + 1) ≠ some 0 := by simp
    cases hround : reader tokens with
    | matched read value middle =>
      by_cases hshorter : middle.length < tokens.length
      · rw [iterate_of_matched hopen hround hshorter, Option.map_some, Nat.add_sub_cancel,
          Reading.bind_eq_matched_iff] at h
        obtain ⟨others, found, last, hothers, heq⟩ := h
        cases heq
        obtain ⟨rounds, hrow, hlength, hjoined, hprogress⟩ :=
          ih hothers (Nat.le_of_succ_le_succ hlimit)
        refine ⟨⟨read, value⟩ :: rounds, .more hround hrow, congrArg Nat.succ hlength, ?_, ?_⟩
        · rw [Parsed.joined_cons, hjoined]
        · have htaken : read ≠ [] := by
            rintro rfl
            rw [hreader hround] at hshorter
            exact lt_irrefl _ hshorter
          cases rounds with
          | nil => nofun
          | cons second others => exact List.forall_mem_cons.mpr ⟨htaken, hprogress⟩
      · rw [iterate_of_stalled hopen hround hshorter] at h
        cases h
        obtain rfl : limit = 0 := Nat.le_zero.mp (Nat.le_of_succ_le_succ hlimit)
        exact ⟨[⟨first, value⟩], .more hround .none, rfl, by simp [Parsed.joined], nofun⟩
    | mismatch =>
      rw [iterate_of_mismatch hround] at h
      cases h
      exact absurd hlimit (Nat.not_succ_le_zero limit)
    | tooDeep =>
      rw [iterate_of_tooDeep hopen hround] at h
      cases h

end Reader

/-! ### Parsers on lists -/

namespace Parser

variable {calls : (rule : ι) → Reader τ (ρ rule)} {p : Parser τ ρ α} {tokens first rest : List τ}
  {values : List α}

theorem read_several_eq_matched_iff (hcalls : ∀ i, (calls i).Splits) {count : Nat} :
    (p.several count (some count)).read calls tokens = .matched first values rest ↔
      ∃ rounds, Reader.InRow (p.read calls) tokens rounds rest ∧ rounds.length = count ∧
        Parsed.joined rounds = ⟨first, values⟩ ∧ Parsed.Progress rounds := by
  have hp := read_splits hcalls p
  rw [read_several, Reading.bind_eq_matched_iff]
  constructor
  · rintro ⟨read, found, last, hfound, heq⟩
    split_ifs at heq with hfew
    cases heq
    exact Reader.inRow_of_iterate hp hfound (Nat.le_of_not_lt hfew)
  · rintro ⟨rounds, hrow, rfl, hjoined, hprogress⟩
    refine ⟨_, _, _, Reader.iterate_of_inRow hp hrow hprogress, ?_⟩
    have hvalues : rounds.map Parsed.value = values := congrArg Parsed.value hjoined
    rw [hjoined, if_neg]
    rw [← hvalues, List.length_map]
    exact lt_irrefl _

theorem read_inSequence_succ (p : Parser τ ρ α) (count : Nat) (tokens : List τ) :
    (p.inSequence (count + 1)).read calls tokens =
      ((p.inSequence count).read calls tokens).bind fun read values rest ↦
        (p.read calls rest).bind fun read' value rest' ↦
          .matched (read ++ read') (values ++ [value]) rest' := by
  rw [inSequence, read_map, read_both]
  cases (p.inSequence count).read calls tokens with
  | matched first values rest =>
    simp only [Reading.bind_matched]
    cases p.read calls rest <;> rfl
  | mismatch => rfl
  | tooDeep => rfl

theorem read_inSequence_eq_matched_iff {count : Nat} :
    (p.inSequence count).read calls tokens = .matched first values rest ↔
      ∃ rounds, Reader.InRow (p.read calls) tokens rounds rest ∧ rounds.length = count + 1 ∧
        Parsed.joined rounds = ⟨first, values⟩ := by
  induction count generalizing first values rest with
  | zero =>
    rw [inSequence, read_map, Reading.bind_eq_matched_iff]
    constructor
    · rintro ⟨found, value, last, hfound, heq⟩
      cases heq
      exact ⟨[⟨first, value⟩], .more hfound .none, rfl, by simp [Parsed.joined]⟩
    · rintro ⟨rounds, hrow, hlength, hjoined⟩
      obtain ⟨round, rfl⟩ := List.length_eq_one_iff.mp hlength
      obtain _ | ⟨hround, _ | _⟩ := hrow
      refine ⟨_, _, _, hround, ?_⟩
      cases hjoined
      simp
  | succ count ih =>
    rw [read_inSequence_succ, Reading.bind_eq_matched_iff]
    constructor
    · rintro ⟨read, found, middle, hfound, hlast⟩
      obtain ⟨read', value, last, hvalue, heq⟩ := Reading.bind_eq_matched_iff.mp hlast
      cases heq
      obtain ⟨rounds, hrow, hlength, hjoined⟩ := ih.mp hfound
      refine ⟨rounds ++ [⟨read', value⟩], hrow.concat hvalue, ?_, ?_⟩
      · rw [List.length_append, hlength, List.length_singleton]
      · rw [Parsed.joined_concat, hjoined]
    · rintro ⟨rounds, hrow, hlength, hjoined⟩
      have hne : rounds ≠ [] := List.ne_nil_of_length_eq_add_one hlength
      rw [← List.dropLast_concat_getLast hne] at hrow hlength hjoined
      obtain ⟨middle, hothers, hround⟩ := hrow.exists_of_concat
      rw [List.length_append, List.length_singleton] at hlength
      rw [Parsed.joined_concat] at hjoined
      cases hjoined
      have hfound := ih.mpr ⟨rounds.dropLast, hothers, Nat.succ_injective hlength, rfl⟩
      exact ⟨_, _, _, hfound, by rw [hround]; rfl⟩

end Parser

/-! ### Calls on streams -/

namespace Grammar

variable {g : Grammar τ ρ} {p : Parser τ ρ α} {s s' : TokenStream τ}
  {rounds : List (Parsed τ α)}

/-- Calls of a parser on a stream that match, each from where the one before it has stopped. -/
inductive Rounds (g : Grammar τ ρ) (p : Parser τ ρ α) :
    TokenStream τ → List (Parsed τ α) → TokenStream τ → Prop
  | none {s : TokenStream τ} : Rounds g p s [] s
  | more {s s' s'' : TokenStream τ} {round : Parsed τ α} {rounds : List (Parsed τ α)} :
    g.Returns p s (.matched round) s' → Rounds g p s' rounds s'' →
      Rounds g p s (round :: rounds) s''

/-- A call of a parser on a stream matches: it takes these tokens and yields this value. -/
def Matches (g : Grammar τ ρ) (p : Parser τ ρ α) (s : TokenStream τ) (found : Parsed τ α) : Prop :=
  ∃ s', g.Returns p s (.matched found) s' ∧ s'.position = s.position + found.tokens.length

theorem matches_iff_exists_reads (hs : s.Sound) {found : Parsed τ α} :
    g.Matches p s found ↔ ∃ rest, g.Reads p s.rest (.matched found.tokens found.value rest) := by
  constructor
  · rintro ⟨s', hreturns, -⟩
    obtain ⟨reading, hreads, houtcome, -, -⟩ := hreturns.reads hs
    obtain ⟨rest, rfl⟩ := Reading.outcome_eq_matched_iff.mp houtcome.symm
    exact ⟨rest, hreads⟩
  · rintro ⟨rest, hreads⟩
    obtain ⟨s', hreturns⟩ := hreads.returns hs
    exact ⟨s', hreturns, ((hreads.returnsOnly hs).2 _ _ hreturns).2⟩

/-- With enough depth, all the calls are matches on lists. -/
theorem Rounds.inRow (h : g.Rounds p s rounds s') (hs : s.Sound) :
    ∀ᶠ depth in atTop, Reader.InRow (p.read (g.read depth)) s.rest rounds s'.rest := by
  induction h with
  | none => exact .of_forall fun _ ↦ .none
  | more hround _ ih =>
    obtain ⟨reading, hreads, houtcome, hextends, hrest⟩ := hround.reads hs
    obtain ⟨rest, rfl⟩ := Reading.outcome_eq_matched_iff.mp houtcome.symm
    filter_upwards [hreads.eventually, ih hextends.sound] with depth hread hothers
    rw [hrest] at hothers
    exact .more hread hothers

theorem rounds_of_inRow {depth : Nat} {tokens rest : List τ}
    (h : Reader.InRow (p.read (g.read depth)) tokens rounds rest) (hs : s.Sound)
    (htokens : s.rest = tokens) : ∃ s', g.Rounds p s rounds s' ∧ s'.rest = rest := by
  induction h generalizing s with
  | none => exact ⟨s, .none, htokens⟩
  | more hround _ ih =>
    have hreads : g.Reads p s.rest _ := ⟨depth, htokens ▸ hround, by simp⟩
    obtain ⟨s', hreturns⟩ := hreads.returns hs
    obtain ⟨reading, hreads', -, hextends, hrest⟩ := hreturns.reads hs
    obtain rfl := hreads.unique hreads'
    obtain ⟨s'', hrounds, hlast⟩ := ih hextends.sound hrest
    exact ⟨s'', .more hreturns hrounds, hlast⟩

theorem matches_several_iff (hs : s.Sound) {count : Nat} {found : Parsed τ (List α)} :
    g.Matches (p.several count (some count)) s found ↔
      ∃ rounds s', g.Rounds p s rounds s' ∧ rounds.length = count ∧ Parsed.joined rounds = found ∧
        Parsed.Progress rounds := by
  rw [matches_iff_exists_reads hs]
  constructor
  · rintro ⟨rest, depth, hread, -⟩
    obtain ⟨rounds, hrow, hrounds⟩ :=
      (Parser.read_several_eq_matched_iff (g.read_splits depth)).mp hread
    obtain ⟨s', hcalls, -⟩ := rounds_of_inRow hrow hs rfl
    exact ⟨rounds, s', hcalls, hrounds⟩
  · rintro ⟨rounds, s', hcalls, hrounds⟩
    obtain ⟨depth, hrow⟩ := (hcalls.inRow hs).exists
    have hread := (Parser.read_several_eq_matched_iff (g.read_splits depth)).mpr
      ⟨rounds, hrow, hrounds⟩
    exact ⟨s'.rest, depth, hread, by simp⟩

theorem matches_inSequence_iff (hs : s.Sound) {count : Nat} {found : Parsed τ (List α)} :
    g.Matches (p.inSequence count) s found ↔
      ∃ rounds s', g.Rounds p s rounds s' ∧ rounds.length = count + 1 ∧
        Parsed.joined rounds = found := by
  rw [matches_iff_exists_reads hs]
  constructor
  · rintro ⟨rest, depth, hread, -⟩
    obtain ⟨rounds, hrow, hrounds⟩ := Parser.read_inSequence_eq_matched_iff.mp hread
    obtain ⟨s', hcalls, -⟩ := rounds_of_inRow hrow hs rfl
    exact ⟨rounds, s', hcalls, hrounds⟩
  · rintro ⟨rounds, s', hcalls, hrounds⟩
    obtain ⟨depth, hrow⟩ := (hcalls.inRow hs).exists
    have hread := Parser.read_inSequence_eq_matched_iff.mpr ⟨rounds, hrow, hrounds⟩
    exact ⟨s'.rest, depth, hread, by simp⟩

/-- Repeating a parser a fixed number of times, on any stream that comes about, matches exactly if
so many matches in a row do, of which every one but the last takes a token. Putting the parser after
itself as often matches exactly if so many matches in a row do. Both take the tokens of these
matches and yield their values in order. -/
theorem several_iff_rounds (g : Grammar τ ρ) (p : Parser τ ρ α) {tokens : List τ}
    {s : TokenStream τ} (reached : s.Reached tokens) (count : Nat) (found : Parsed τ (List α)) :
    (g.Matches (p.several count (some count)) s found ↔
      ∃ rounds s', g.Rounds p s rounds s' ∧ rounds.length = count ∧ Parsed.joined rounds = found ∧
        Parsed.Progress rounds) ∧
    ∀ others, count = others + 1 → (g.Matches (p.inSequence others) s found ↔
      ∃ rounds s', g.Rounds p s rounds s' ∧ rounds.length = count ∧
        Parsed.joined rounds = found) := by
  have hs := reached.sound_and_source.1
  refine ⟨matches_several_iff hs, ?_⟩
  rintro others rfl
  exact matches_inSequence_iff hs

/-- A letter if there is one. -/
def perhaps : Parser Char (fun _ : Unit ↦ Unit) (Option Char) :=
  (Parser.just 'x').optional

theorem rounds_perhaps : empty.Rounds perhaps (TokenStream.ofList ['x'])
    [⟨['x'], some 'x'⟩, ⟨[], none⟩] ⟨#['x'], [], 1, true⟩ := by
  have hfirst : empty.Returns perhaps (TokenStream.ofList ['x']) (.matched ⟨['x'], some 'x'⟩)
      ⟨#['x'], [], 1, false⟩ := ⟨0, by cbv, by simp⟩
  have hsecond : empty.Returns perhaps ⟨#['x'], [], 1, false⟩ (.matched ⟨[], none⟩)
      ⟨#['x'], [], 1, true⟩ := ⟨0, by cbv, by simp⟩
  exact .more hfirst (.more hsecond .none)

/-- The second of two matches takes nothing. -/
theorem several_iff_rounds_perhaps :
    (TokenStream.ofList ['x']).Reached ['x'] ∧
    empty.Matches (perhaps.several 2 (some 2)) (TokenStream.ofList ['x'])
      ⟨['x'], [some 'x', none]⟩ ∧
    empty.Matches (perhaps.inSequence 1) (TokenStream.ofList ['x']) ⟨['x'], [some 'x', none]⟩ := by
  have hrounds :=
    several_iff_rounds empty perhaps (.start : (TokenStream.ofList ['x']).Reached ['x'])
    2 ⟨['x'], [some 'x', none]⟩
  refine ⟨.start, hrounds.1.mpr ?_, (hrounds.2 1 rfl).mpr ?_⟩
  · exact ⟨_, _, rounds_perhaps, rfl, rfl, by simp [Parsed.Progress]⟩
  · exact ⟨_, _, rounds_perhaps, rfl, rfl⟩

/-- Two matches of nothing are matches in sequence, and still a repetition fails. -/
theorem not_always_in_sequence :
    ¬ ∀ (p : Parser Char (fun _ : Unit ↦ Unit) (Option Char)) (others : Nat) (tokens : List Char)
      (s : TokenStream Char) (found : Parsed Char (List (Option Char))), s.Reached tokens →
        (empty.Matches (p.several (others + 1) (some (others + 1))) s found ↔
          empty.Matches (p.inSequence others) s found) := by
  intro h
  have hs : (TokenStream.ofList ([] : List Char)).Sound := TokenStream.sound_ofList []
  have hnone : empty.Returns perhaps (TokenStream.ofList []) (.matched ⟨[], none⟩)
      ⟨#[], [], 0, true⟩ := ⟨0, by cbv, by simp⟩
  have hagain : empty.Returns perhaps ⟨#[], [], 0, true⟩ (.matched ⟨[], none⟩)
      ⟨#[], [], 0, true⟩ := ⟨0, by cbv, by simp⟩
  have hsequence : empty.Matches (perhaps.inSequence 1) (TokenStream.ofList [])
      ⟨[], [none, none]⟩ :=
    (matches_inSequence_iff hs).mpr ⟨_, _, .more hnone (.more hagain .none), rfl, rfl⟩
  obtain ⟨rounds, s', -, hlength, hjoined, hprogress⟩ :=
    (matches_several_iff hs).mp ((h perhaps 1 [] _ _ .start).mpr hsequence)
  obtain ⟨first, second, rfl⟩ := List.length_eq_two.mp hlength
  obtain ⟨htokens, -⟩ : first.tokens = [] ∧ second.tokens = [] := by
    simpa [Parsed.joined] using congrArg Parsed.tokens hjoined
  exact hprogress first List.mem_cons_self htokens

end Grammar

end DebugLink
