import DebugLink.Proofs.Parser.Reading
import Mathlib.Order.Filter.AtTopBot.Basic

/-!
What a call of a parser does to its stream. A call that returns (`Grammar.Returns`) either fails and
puts the reader back, or consumes exactly the tokens that it reports. Its outcome depends on nothing
but the tokens that were left: neither on those before them nor on how many were pulled already, so
a call from the same place ends in the same way (`consumption_of_returns`).
-/

set_option autoImplicit false

namespace DebugLink.Grammar

open Filter

variable {τ ι α : Type} {ρ : ι → Type} {g : Grammar τ ρ} {p : Parser τ ρ α}

/-- A call of a parser on a stream that returns: there is a depth of rule calls that is enough. -/
def Returns (g : Grammar τ ρ) (p : Parser τ ρ α) (s : TokenStream τ) (outcome : Outcome τ α)
    (s' : TokenStream τ) : Prop :=
  ∃ depth, p.tryParse (g.run depth) s = (outcome, s') ∧ outcome ≠ .tooDeep

/-- A call of a parser on a stream returns with the given outcome and the reader so many tokens
further, and in no other way. -/
def ReturnsOnly (g : Grammar τ ρ) (p : Parser τ ρ α) (s : TokenStream τ) (outcome : Outcome τ α)
    (count : Nat) : Prop :=
  (∃ s', g.Returns p s outcome s') ∧
    ∀ outcome' s', g.Returns p s outcome' s' →
      outcome' = outcome ∧ s'.position = s.position + count

/-- The reading of a list by a parser, for all depths that are enough. -/
def Reads (g : Grammar τ ρ) (p : Parser τ ρ α) (tokens : List τ) (reading : Reading τ α) : Prop :=
  ∃ depth, p.read (g.read depth) tokens = reading ∧ reading ≠ .tooDeep

theorem Reads.ne_tooDeep {tokens : List τ} {reading : Reading τ α} (h : g.Reads p tokens reading) :
    reading ≠ .tooDeep := by
  obtain ⟨_, _, hne⟩ := h
  exact hne

/-- Every greater depth gives the same reading. -/
theorem Reads.eventually {tokens : List τ} {reading : Reading τ α} (h : g.Reads p tokens reading) :
    ∀ᶠ depth in atTop, p.read (g.read depth) tokens = reading := by
  obtain ⟨depth, rfl, hne⟩ := h
  filter_upwards [eventually_ge_atTop depth] with deeper hdeeper
  exact Parser.read_deeper (fun i ↦ g.read_deeper hdeeper i) p tokens hne

/-- Two depths that are enough give the same reading. -/
theorem Reads.unique {tokens : List τ} {reading reading' : Reading τ α}
    (h : g.Reads p tokens reading) (h' : g.Reads p tokens reading') : reading = reading' := by
  obtain ⟨depth, hread, hread'⟩ := (h.eventually.and h'.eventually).exists
  exact hread.symm.trans hread'

theorem Reads.splits {tokens first rest : List τ} {value : α}
    (h : g.Reads p tokens (.matched first value rest)) : tokens = first ++ rest := by
  obtain ⟨depth, hread, -⟩ := h
  exact Parser.read_splits (g.read_splits depth) p hread

theorem Reads.returns {s : TokenStream τ} {reading : Reading τ α} (h : g.Reads p s.rest reading)
    (hs : s.Sound) : ∃ s', g.Returns p s reading.outcome s' := by
  obtain ⟨depth, rfl, hne⟩ := h
  obtain ⟨s', hrun, -, -⟩ :=
    Parser.realizes_tryParse (fun i ↦ (g.realizes_run depth i).attempts) p s hs
  exact ⟨s', depth, hrun, fun hdeep ↦ hne (Reading.outcome_eq_tooDeep_iff.mp hdeep)⟩

/-- A call that returns has read what was left of the stream, and nothing else has changed. -/
theorem Returns.reads {s s' : TokenStream τ} {outcome : Outcome τ α}
    (h : g.Returns p s outcome s') (hs : s.Sound) :
    ∃ reading, g.Reads p s.rest reading ∧ outcome = reading.outcome ∧ s.Extends s' ∧
      s'.rest = reading.left s.rest := by
  obtain ⟨depth, hrun, hne⟩ := h
  obtain ⟨t, ht, hextends, hrest⟩ :=
    Parser.realizes_tryParse (fun i ↦ (g.realizes_run depth i).attempts) p s hs
  obtain ⟨houtcome, rfl⟩ := Prod.mk.inj (hrun.symm.trans ht)
  refine ⟨_, ⟨depth, rfl, ?_⟩, houtcome, hextends, hrest⟩
  intro hdeep
  rw [hdeep] at houtcome
  exact hne houtcome

theorem Reads.length_eq {tokens : List τ} {reading : Reading τ α} (h : g.Reads p tokens reading) :
    tokens.length = reading.count + (reading.left tokens).length := by
  cases reading with
  | matched first value rest =>
    rw [h.splits, List.length_append]
    rfl
  | mismatch => simp [Reading.count, Reading.left]
  | tooDeep => simp [Reading.count, Reading.left]

/-- The reader moves by as many tokens as were read. -/
theorem Reads.position_eq {s s' : TokenStream τ} {reading : Reading τ α}
    (h : g.Reads p s.rest reading) (hs : s.Sound) (hextends : s.Extends s')
    (hrest : s'.rest = reading.left s.rest) : s'.position = s.position + reading.count := by
  have hafter := TokenStream.position_add_length_rest hextends.sound
  have hbefore := TokenStream.position_add_length_rest hs
  rw [hextends.source_eq, hrest] at hafter
  rw [h.length_eq] at hbefore
  omega

/-- What is left of a stream decides how every call on it returns. -/
theorem Reads.returnsOnly {s : TokenStream τ} {reading : Reading τ α}
    (h : g.Reads p s.rest reading) (hs : s.Sound) :
    g.ReturnsOnly p s reading.outcome reading.count := by
  refine ⟨h.returns hs, ?_⟩
  intro outcome s' hreturns
  obtain ⟨reading', hreads, rfl, hextends, hrest⟩ := hreturns.reads hs
  obtain rfl := h.unique hreads
  exact ⟨rfl, h.position_eq hs hextends hrest⟩

/-- The consumption law. Take a call that returns, on any stream that comes about over any source.
If it fails, the reader stands where it stood before. If it matches, the tokens that it reports are
those between the old position and the new one. On every stream, over any source, that has the same
tokens left, however many of them were pulled, the call returns with the same outcome and the
reader moved equally far; so it does when it is repeated after going back. -/
theorem consumption_of_returns (g : Grammar τ ρ) (p : Parser τ ρ α) {tokens : List τ}
    {s s' : TokenStream τ} {outcome : Outcome τ α} (reached : s.Reached tokens)
    (returns : g.Returns p s outcome s') :
    s'.Reached tokens ∧
    (outcome = .mismatch → s'.position = s.position) ∧
    (∀ parsed, outcome = .matched parsed →
      s.position ≤ s'.position ∧ s'.position ≤ tokens.length ∧
        parsed.tokens = tokens.extract s.position s'.position) ∧
    (∀ (tokens' : List τ) (t : TokenStream τ), t.Reached tokens' →
      tokens'.drop t.position = tokens.drop s.position →
        g.ReturnsOnly p t outcome (s'.position - s.position)) ∧
    g.ReturnsOnly p (s'.backtrack s.position) outcome (s'.position - s.position) := by
  obtain ⟨hs, hsource⟩ := reached.sound_and_source
  obtain ⟨reading, hreads, houtcome, hextends, hrest⟩ := returns.reads hs
  have hposition := hreads.position_eq hs hextends hrest
  have hcount : s'.position - s.position = reading.count := by omega
  have htokens : s.rest = tokens.drop s.position := by
    rw [TokenStream.rest, hsource]
  have hbound : s'.position ≤ tokens.length := by
    have hlength := hextends.sound.position_le.trans s'.buffered_le
    rwa [hextends.source_eq, hsource] at hlength
  have hsame : ∀ t : TokenStream τ, t.Sound → t.rest = s.rest →
      g.ReturnsOnly p t outcome (s'.position - s.position) := by
    intro t ht heq
    rw [hcount, houtcome]
    exact Reads.returnsOnly (heq ▸ hreads) ht
  refine ⟨hextends.reached reached, ?_, ?_, ?_, ?_⟩
  · intro hmismatch
    rw [hmismatch, eq_comm, Reading.outcome_eq_mismatch_iff] at houtcome
    rw [hposition, houtcome]
    rfl
  · intro parsed hmatched
    rw [hmatched, eq_comm, Reading.outcome_eq_matched_iff] at houtcome
    obtain ⟨rest, rfl⟩ := houtcome
    refine ⟨by omega, hbound, ?_⟩
    have hsplit := hreads.splits
    rw [htokens] at hsplit
    rw [List.extract_eq_take_drop, hcount, hsplit]
    exact List.take_left.symm
  · intro tokens' t ht heq
    obtain ⟨htsound, htsource⟩ := ht.sound_and_source
    have htrest : t.rest = tokens'.drop t.position := by
      rw [TokenStream.rest, htsource]
    exact hsame t htsound (by rw [htrest, heq, htokens])
  · exact hsame _ (hextends.backtrack hs).sound hextends.rest_backtrack

/-- After one character of three, the first alternative reads one more before it fails, and the
second one begins again in the same place. -/
theorem consumption_of_returns_choice :
    let p : Parser Char (fun _ : Unit ↦ Unit) String :=
      (Parser.text "ac").either (Parser.text "ab")
    let s : TokenStream Char := ⟨#['x'], ['a', 'b'], 1, false⟩
    let s' : TokenStream Char := ⟨#['x', 'a', 'b'], [], 3, false⟩
    s.Reached ['x', 'a', 'b'] ∧ empty.Returns p s (.matched ⟨['a', 'b'], "ab"⟩) s' ∧
      empty.ReturnsOnly p (s'.backtrack 1) (.matched ⟨['a', 'b'], "ab"⟩) 2 := by
  intro p s s'
  have reached : s.Reached ['x', 'a', 'b'] :=
    TokenStream.reached_consumed ['x', 'a', 'b'] 1 (by decide)
  have returns : empty.Returns p s (.matched ⟨['a', 'b'], "ab"⟩) s' :=
    ⟨0, by cbv, by simp⟩
  exact ⟨reached, returns, (consumption_of_returns empty p reached returns).2.2.2.2⟩

end DebugLink.Grammar
