import DebugLink.Parser.Basic
import DebugLink.Proofs.Parser.Stream

/-!
What a parser makes of a list of tokens, without the stream. `Parser.read` follows the shape of a
parser as `Parser.attempt` does, but hands on the tokens that are left instead of moving a reader,
so nothing has to be put back. `Grammar.read` is the same for the rules of a grammar.

`Parser.realizes_tryParse` says that a parser run on a stream ends as the reading of the tokens that
are left, and leaves the reader where the reading stops, or where it began after a failure. Whatever
is said about parsers can therefore be said about lists. A reading that matches splits the list
(`Parser.read_splits`), and more depth for rule calls never changes a reading that had enough
(`Parser.read_deeper`).
-/

set_option autoImplicit false

namespace DebugLink

variable {τ ι α β : Type}

/-- How the reading of a list ends. A match comes with the tokens read, the value made of them and
the tokens that are left. -/
inductive Reading (τ α : Type)
  | matched (tokens : List τ) (value : α) (rest : List τ)
  | mismatch
  /-- The bound on the depth of rule calls was reached. -/
  | tooDeep

/-- What a parser makes of each list of tokens. -/
abbrev Reader (τ α : Type) : Type := List τ → Reading τ α

namespace Reading

/-- Goes on after a match. -/
def bind : Reading τ α → (List τ → α → List τ → Reading τ β) → Reading τ β
  | matched tokens value rest, next => next tokens value rest
  | mismatch, _ => mismatch
  | tooDeep, _ => tooDeep

/-- The end of an attempt, without what is left. -/
def outcome : Reading τ α → Outcome τ α
  | matched tokens value _ => .matched ⟨tokens, value⟩
  | mismatch => .mismatch
  | tooDeep => .tooDeep

/-- What is left of a list after reading it; all of it if nothing was matched. -/
def left (tokens : List τ) : Reading τ α → List τ
  | matched _ _ rest => rest
  | _ => tokens

/-- The number of tokens that a reading takes. -/
def count : Reading τ α → Nat
  | matched tokens _ _ => tokens.length
  | _ => 0

/-- After a match reading goes on with what is left. -/
@[simp] theorem bind_matched (tokens : List τ) (value : α) (rest : List τ)
    (next : List τ → α → List τ → Reading τ β) :
    (matched tokens value rest).bind next = next tokens value rest := rfl

/-- A mismatch ends it. -/
@[simp] theorem bind_mismatch (next : List τ → α → List τ → Reading τ β) :
    (mismatch : Reading τ α).bind next = mismatch := rfl

/-- A reading that is too deep ends it. -/
@[simp] theorem bind_tooDeep (next : List τ → α → List τ → Reading τ β) :
    (tooDeep : Reading τ α).bind next = tooDeep := rfl

/-- The matches of outcomes are those of readings, whatever is left. -/
theorem outcome_eq_matched_iff {reading : Reading τ α} {parsed : Parsed τ α} :
    reading.outcome = .matched parsed ↔
      ∃ rest, reading = matched parsed.tokens parsed.value rest := by
  cases reading with
  | matched tokens value rest =>
    obtain ⟨tokens', value'⟩ := parsed
    simp [outcome]
  | mismatch => simp [outcome]
  | tooDeep => simp [outcome]

/-- The mismatches of outcomes are those of readings. -/
theorem outcome_eq_mismatch_iff {reading : Reading τ α} :
    reading.outcome = .mismatch ↔ reading = mismatch := by
  cases reading <;> simp [outcome]

/-- An outcome is too deep if the reading is. -/
theorem outcome_eq_tooDeep_iff {reading : Reading τ α} :
    reading.outcome = .tooDeep ↔ reading = tooDeep := by
  cases reading <;> simp [outcome]

/-- Two readings in a row match if the first one does and the second one does behind it. -/
theorem bind_eq_matched_iff {reading : Reading τ α} {next : List τ → α → List τ → Reading τ β}
    {tokens rest : List τ} {value : β} :
    reading.bind next = matched tokens value rest ↔
      ∃ first a middle, reading = matched first a middle ∧
        next first a middle = matched tokens value rest := by
  cases reading <;> simp

end Reading

namespace Reader

/-- Reads over and over, as `Step.iterate` does. -/
def iterate (reader : Reader τ α) (limit : Option Nat) (tokens : List τ) : Reading τ (List α) :=
  if limit = some 0 then .matched [] [] tokens
  else
    match reader tokens with
    | .tooDeep => .tooDeep
    | .mismatch => .matched [] [] tokens
    | .matched first value rest =>
      if rest.length < tokens.length then
        (iterate reader (limit.map (· - 1)) rest).bind fun others values rest' ↦
          .matched (first ++ others) (value :: values) rest'
      else .matched first [value] rest
termination_by tokens.length

/-- A match splits the list into what was read and what is left. -/
def Splits (reader : Reader τ α) : Prop :=
  ∀ ⦃tokens first : List τ⦄ ⦃value : α⦄ ⦃rest : List τ⦄,
    reader tokens = .matched first value rest → tokens = first ++ rest

/-- The second reader ends as the first one does wherever the first one is not too deep. -/
def Deeper (shallow deep : Reader τ α) : Prop :=
  ∀ tokens, shallow tokens ≠ .tooDeep → deep tokens = shallow tokens

section Iterate

variable {reader : Reader τ α} {limit : Option Nat} {tokens first rest : List τ} {value : α}

/-- No match is asked for, so nothing is read. -/
@[simp] theorem iterate_zero : reader.iterate (some 0) tokens = .matched [] [] tokens := by
  rw [iterate, if_pos rfl]

/-- An iteration is too deep when one of its matches is. -/
theorem iterate_of_tooDeep (hlimit : limit ≠ some 0) (h : reader tokens = .tooDeep) :
    reader.iterate limit tokens = .tooDeep := by
  rw [iterate, if_neg hlimit, h]

/-- An iteration ends, matched, at the first mismatch. -/
theorem iterate_of_mismatch (h : reader tokens = .mismatch) :
    reader.iterate limit tokens = .matched [] [] tokens := by
  by_cases hlimit : limit = some 0
  · rw [hlimit, iterate_zero]
  · rw [iterate, if_neg hlimit, h]

/-- After a match that reads something an iteration goes on with one match less to make. -/
theorem iterate_of_matched (hlimit : limit ≠ some 0) (h : reader tokens = .matched first value rest)
    (hshorter : rest.length < tokens.length) :
    reader.iterate limit tokens =
      (reader.iterate (limit.map (· - 1)) rest).bind fun others values rest' ↦
        .matched (first ++ others) (value :: values) rest' := by
  rw [iterate, if_neg hlimit, h]
  simp only [hshorter, ↓reduceIte]

/-- A match that reads nothing is the last one. -/
theorem iterate_of_stalled (hlimit : limit ≠ some 0) (h : reader tokens = .matched first value rest)
    (hstalled : ¬ rest.length < tokens.length) :
    reader.iterate limit tokens = .matched first [value] rest := by
  rw [iterate, if_neg hlimit, h]
  simp only [hstalled, ↓reduceIte]

end Iterate

/-- Iterating keeps to splitting the list. -/
theorem splits_iterate {reader : Reader τ α} (h : reader.Splits) (limit : Option Nat) :
    Splits (reader.iterate limit) := by
  intro tokens
  fun_induction reader.iterate limit tokens with
  | case1 tokens =>
    intro first values rest hmatch
    cases hmatch
    rfl
  | case2 limit tokens hlimit hread =>
    intro first values rest hmatch
    cases hmatch
  | case3 limit tokens hlimit hread =>
    intro first values rest hmatch
    cases hmatch
    rfl
  | case4 limit tokens hlimit first value rest hread hshorter ih =>
    intro all values last hmatch
    obtain ⟨others, found, rest', hothers, heq⟩ := Reading.bind_eq_matched_iff.mp hmatch
    cases heq
    rw [h hread, ih hothers, List.append_assoc]
  | case5 limit tokens hlimit first value rest hread hshorter =>
    intro all values last hmatch
    cases hmatch
    exact h hread

/-- An iteration changes only where its reader was too deep. -/
theorem iterate_deeper {shallow deep : Reader τ α} (h : shallow.Deeper deep)
    (limit : Option Nat) : Deeper (shallow.iterate limit) (deep.iterate limit) := by
  intro tokens
  fun_induction shallow.iterate limit tokens with
  | case1 tokens =>
    intro _
    rw [iterate_zero]
  | case2 limit tokens hlimit hread =>
    intro hne
    exact absurd rfl hne
  | case3 limit tokens hlimit hread =>
    intro _
    rw [iterate_of_mismatch (by rw [h tokens (by simp [hread]), hread])]
  | case4 limit tokens hlimit first value rest hread hshorter ih =>
    intro hne
    have hothers : shallow.iterate (limit.map (· - 1)) rest ≠ .tooDeep := by
      intro hdeep
      rw [hdeep] at hne
      exact hne rfl
    rw [iterate_of_matched hlimit (by rw [h tokens (by simp [hread]), hread]) hshorter,
      ih hothers]
  | case5 limit tokens hlimit first value rest hread hshorter =>
    intro _
    rw [iterate_of_stalled hlimit (by rw [h tokens (by simp [hread]), hread]) hshorter]

end Reader

namespace Parser

variable {ρ : ι → Type}

/-- What a parser makes of a list; `calls` says what a rule makes of one. -/
def read (calls : (rule : ι) → Reader τ (ρ rule)) : {α : Type} → Parser τ ρ α → Reader τ α
  | _, satisfy accepts => fun
    | [] => .mismatch
    | token :: rest => if accepts token then .matched [token] token rest else .mismatch
  | _, literal text => fun tokens ↦
    match text.isPrefixOf? tokens with
    | some rest => .matched text text rest
    | none => .mismatch
  | _, both first second => fun tokens ↦
    (first.read calls tokens).bind fun read a rest ↦
      (second.read calls rest).bind fun read' b rest' ↦ .matched (read ++ read') (a, b) rest'
  | _, either first second => fun tokens ↦
    match first.read calls tokens with
    | .mismatch => second.read calls tokens
    | done => done
  | _, several item least limit => fun tokens ↦
    (Reader.iterate (item.read calls) limit tokens).bind fun read values rest ↦
      if values.length < least then .mismatch else .matched read values rest
  | _, mapTokens inner transform => fun tokens ↦
    (inner.read calls tokens).bind fun read a rest ↦ .matched read (transform read a) rest
  | _, call rule => calls rule

end Parser

/-- What the rules of a grammar make of a list, with calls nested at most `depth` deep. -/
def Grammar.read {ρ : ι → Type} (g : Grammar τ ρ) : Nat → (i : ι) → Reader τ (ρ i)
  | 0, _ => fun _ ↦ .tooDeep
  | depth + 1, i =>
    match g.rule i with
    | some p => p.read (g.read depth)
    | none => fun _ ↦ .mismatch

/-! ### Reading splits the list -/

namespace Parser

variable {ρ : ι → Type}

/-- Every parser splits the list, if the rules do. By induction on the parser. -/
theorem read_splits {calls : (rule : ι) → Reader τ (ρ rule)} (hcalls : ∀ i, (calls i).Splits)
    (p : Parser τ ρ α) : (p.read calls).Splits := by
  induction p with
  | satisfy accepts =>
    intro tokens first value rest hmatch
    cases tokens with
    | nil => cases hmatch
    | cons token others =>
      simp only [read] at hmatch
      split_ifs at hmatch
      cases hmatch
      rfl
  | literal text =>
    intro tokens first value rest hmatch
    simp only [read] at hmatch
    split at hmatch
    · rename_i others hprefix
      cases hmatch
      exact (List.isPrefixOf?_eq_some_iff_append_eq.mp hprefix).symm
    · cases hmatch
  | both first second ihFirst ihSecond =>
    intro tokens read value rest hmatch
    simp only [Parser.read, Reading.bind_eq_matched_iff] at hmatch
    obtain ⟨readFirst, a, middle, hfirst, readSecond, b, last, hsecond, heq⟩ := hmatch
    cases heq
    rw [ihFirst hfirst, ihSecond hsecond, List.append_assoc]
  | either first second ihFirst ihSecond =>
    intro tokens read value rest hmatch
    simp only [Parser.read] at hmatch
    split at hmatch
    · exact ihSecond hmatch
    · exact ihFirst hmatch
  | several item least limit ih =>
    intro tokens read values rest hmatch
    simp only [Parser.read, Reading.bind_eq_matched_iff] at hmatch
    obtain ⟨found, items, last, hitems, heq⟩ := hmatch
    split_ifs at heq
    cases heq
    exact Reader.splits_iterate ih limit hitems
  | mapTokens inner transform ih =>
    intro tokens read value rest hmatch
    simp only [Parser.read, Reading.bind_eq_matched_iff] at hmatch
    obtain ⟨found, a, last, hinner, heq⟩ := hmatch
    cases heq
    exact ih hinner
  | call rule => exact hcalls rule

/-- What a parser makes of a list changes only where a rule was too deep. By induction on the
parser. -/
theorem read_deeper {shallow deep : (rule : ι) → Reader τ (ρ rule)}
    (h : ∀ i, (shallow i).Deeper (deep i)) (p : Parser τ ρ α) :
    (p.read shallow).Deeper (p.read deep) := by
  induction p with
  | satisfy accepts => exact fun _ _ ↦ rfl
  | literal text => exact fun _ _ ↦ rfl
  | both first second ihFirst ihSecond =>
    intro tokens hne
    simp only [read] at hne ⊢
    cases hfirst : first.read shallow tokens with
    | tooDeep => simp [hfirst] at hne
    | mismatch => rw [ihFirst tokens (by simp [hfirst]), hfirst]; rfl
    | matched readFirst a rest =>
      rw [ihFirst tokens (by simp [hfirst]), hfirst]
      have hsecond : second.read shallow rest ≠ .tooDeep := by
        intro hdeep
        simp [hfirst, hdeep] at hne
      simp only [Reading.bind_matched, ihSecond rest hsecond]
  | either first second ihFirst ihSecond =>
    intro tokens hne
    simp only [read] at hne ⊢
    cases hfirst : first.read shallow tokens with
    | tooDeep => simp [hfirst] at hne
    | mismatch =>
      rw [hfirst] at hne
      rw [ihFirst tokens (by simp [hfirst]), hfirst]
      exact ihSecond tokens hne
    | matched readFirst a rest => rw [ihFirst tokens (by simp [hfirst]), hfirst]
  | several item least limit ih =>
    intro tokens hne
    simp only [read] at hne ⊢
    have hitems : Reader.iterate (item.read shallow) limit tokens ≠ .tooDeep := by
      intro hdeep
      simp [hdeep] at hne
    rw [Reader.iterate_deeper ih limit tokens hitems]
  | mapTokens inner transform ih =>
    intro tokens hne
    simp only [read] at hne ⊢
    have hinner : inner.read shallow tokens ≠ .tooDeep := by
      intro hdeep
      simp [hdeep] at hne
    rw [ih tokens hinner]
  | call rule => exact h rule

end Parser

namespace Grammar

variable {ρ : ι → Type}

/-- The rules of a grammar split the list at every depth. -/
theorem read_splits (g : Grammar τ ρ) (depth : Nat) (i : ι) : (g.read depth i).Splits := by
  induction depth generalizing i with
  | zero => exact fun _ _ _ _ hmatch ↦ nomatch hmatch
  | succ depth ih =>
    rw [read]
    split
    · exact Parser.read_splits ih _
    · exact fun _ _ _ _ hmatch ↦ nomatch hmatch

/-- One more level of calls changes only what was too deep. -/
theorem read_deeper_succ (g : Grammar τ ρ) (depth : Nat) (i : ι) :
    (g.read depth i).Deeper (g.read (depth + 1) i) := by
  induction depth generalizing i with
  | zero => exact fun _ hne ↦ absurd rfl hne
  | succ depth ih =>
    rw [read, read]
    split
    · exact Parser.read_deeper ih _
    · exact fun _ _ ↦ rfl

/-- More levels of calls change only what was too deep. -/
theorem read_deeper (g : Grammar τ ρ) {depth depth' : Nat} (h : depth ≤ depth') (i : ι) :
    (g.read depth i).Deeper (g.read depth' i) := by
  induction h with
  | refl => exact fun _ _ ↦ rfl
  | step _ ih =>
    intro tokens hne
    have heq := ih tokens hne
    rw [g.read_deeper_succ _ i tokens (by rw [heq]; exact hne), heq]

end Grammar

/-! ### Running on a stream -/

namespace Step

/-- On every sound stream the step ends as the reading of what is left does, and a match leaves the
reader where the reading stops. After a failure the reader may stand anywhere. -/
def Attempts (step : Step τ α) (reader : Reader τ α) : Prop :=
  ∀ s : TokenStream τ, s.Sound → ∃ s', step s = ((reader s.rest).outcome, s') ∧ s.Extends s' ∧
    ∀ tokens value rest, reader s.rest = .matched tokens value rest → s'.rest = rest

/-- As `Attempts`, and after a failure everything that was left is left again. -/
def Realizes (step : Step τ α) (reader : Reader τ α) : Prop :=
  ∀ s : TokenStream τ, s.Sound → ∃ s', step s = ((reader s.rest).outcome, s') ∧ s.Extends s' ∧
    s'.rest = (reader s.rest).left s.rest

/-- A step that restores the stream after a failure is all the more an attempt. -/
theorem Realizes.attempts {step : Step τ α} {reader : Reader τ α} (h : step.Realizes reader) :
    step.Attempts reader := by
  intro s hs
  obtain ⟨s', hstep, hextends, hrest⟩ := h s hs
  refine ⟨s', hstep, hextends, ?_⟩
  intro tokens value rest hread
  rw [hrest, hread]
  rfl

section Outcomes

variable {step : Step τ α} {reader : Reader τ α} {s s' : TokenStream τ} {parsed : Parsed τ α}

/-- The reading behind a step that matches. -/
theorem Attempts.matched (h : step.Attempts reader) (hs : s.Sound)
    (hstep : step s = (.matched parsed, s')) :
    reader s.rest = .matched parsed.tokens parsed.value s'.rest ∧ s.Extends s' := by
  obtain ⟨t, ht, hextends, hrest⟩ := h s hs
  obtain ⟨houtcome, rfl⟩ := Prod.mk.inj (ht.symm.trans hstep)
  obtain ⟨rest, hread⟩ := Reading.outcome_eq_matched_iff.mp houtcome
  rw [hrest _ _ rest hread]
  exact ⟨hread, hextends⟩

/-- The reading behind a step that fails. -/
theorem Attempts.mismatch (h : step.Attempts reader) (hs : s.Sound)
    (hstep : step s = (.mismatch, s')) : reader s.rest = .mismatch ∧ s.Extends s' := by
  obtain ⟨t, ht, hextends, -⟩ := h s hs
  obtain ⟨houtcome, rfl⟩ := Prod.mk.inj (ht.symm.trans hstep)
  exact ⟨Reading.outcome_eq_mismatch_iff.mp houtcome, hextends⟩

/-- The reading behind a step that is too deep. -/
theorem Attempts.tooDeep (h : step.Attempts reader) (hs : s.Sound)
    (hstep : step s = (.tooDeep, s')) : reader s.rest = .tooDeep ∧ s.Extends s' := by
  obtain ⟨t, ht, hextends, -⟩ := h s hs
  obtain ⟨houtcome, rfl⟩ := Prod.mk.inj (ht.symm.trans hstep)
  exact ⟨Reading.outcome_eq_tooDeep_iff.mp houtcome, hextends⟩

/-- After a failure the stream is left as it was found. -/
theorem Realizes.rest_of_mismatch (h : step.Realizes reader) (hs : s.Sound)
    (hstep : step s = (.mismatch, s')) : s'.rest = s.rest := by
  obtain ⟨t, ht, -, hrest⟩ := h s hs
  obtain ⟨houtcome, rfl⟩ := Prod.mk.inj (ht.symm.trans hstep)
  rw [hrest, Reading.outcome_eq_mismatch_iff.mp houtcome]
  rfl

end Outcomes

/-- Putting the reader back after a failure turns an attempt into a realization. -/
theorem Attempts.rewinding {step : Step τ α} {reader : Reader τ α} (h : step.Attempts reader) :
    step.rewinding.Realizes reader := by
  intro s hs
  cases hstep : step s with
  | mk outcome s' =>
    cases outcome with
    | matched parsed =>
      obtain ⟨hread, hextends⟩ := h.matched hs hstep
      rw [hread]
      exact ⟨s', by simp [Step.rewinding, hstep, Reading.outcome], hextends, rfl⟩
    | mismatch =>
      obtain ⟨hread, hextends⟩ := h.mismatch hs hstep
      rw [hread]
      exact ⟨s'.backtrack s.savepoint, by simp [Step.rewinding, hstep, Reading.outcome],
        hextends.backtrack hs, hextends.rest_backtrack⟩
    | tooDeep =>
      obtain ⟨hread, hextends⟩ := h.tooDeep hs hstep
      rw [hread]
      exact ⟨s'.backtrack s.savepoint, by simp [Step.rewinding, hstep, Reading.outcome],
        hextends.backtrack hs, hextends.rest_backtrack⟩

/-- One round of an iteration is one realization of the step that is iterated. -/
theorem Attempts.iterate {step : Step τ α} {reader : Reader τ α} (h : step.Attempts reader)
    (limit : Option Nat) : Attempts (step.iterate limit) (reader.iterate limit) := by
  have hround := h.rewinding
  intro s hs
  fun_induction Step.iterate step limit s with
  | case1 s => exact ⟨s, by simp [Reading.outcome], .refl hs, by simp⟩
  | case2 limit s hlimit s' hstep =>
    obtain ⟨hread, hextends⟩ := hround.attempts.tooDeep hs hstep
    rw [Reader.iterate_of_tooDeep hlimit hread]
    exact ⟨s', rfl, hextends, by simp⟩
  | case3 limit s hlimit s' hstep =>
    obtain ⟨hread, hextends⟩ := hround.attempts.mismatch hs hstep
    rw [Reader.iterate_of_mismatch hread]
    refine ⟨s', rfl, hextends, ?_⟩
    intro tokens values rest hmatch
    cases hmatch
    exact hround.rest_of_mismatch hs hstep
  | case4 limit s hlimit first s' hstep hshorter others s'' hothers ih =>
    obtain ⟨hread, hextends⟩ := hround.attempts.matched hs hstep
    obtain ⟨t, ht, hextends', hrest⟩ := ih hextends.sound
    obtain ⟨houtcome, rfl⟩ := Prod.mk.inj (ht.symm.trans hothers)
    obtain ⟨rest, hfound⟩ := Reading.outcome_eq_matched_iff.mp houtcome
    rw [TokenStream.remaining_eq, TokenStream.remaining_eq] at hshorter
    rw [Reader.iterate_of_matched hlimit hread hshorter, hfound]
    refine ⟨t, rfl, hextends.trans hextends', ?_⟩
    intro tokens values last hmatch
    cases hmatch
    exact hrest _ _ rest hfound
  | case5 limit s hlimit first s' hstep hshorter other s'' hnot hother ih =>
    obtain ⟨hread, hextends⟩ := hround.attempts.matched hs hstep
    obtain ⟨t, ht, hextends', -⟩ := ih hextends.sound
    obtain ⟨houtcome, rfl⟩ := Prod.mk.inj (ht.symm.trans hother)
    rw [TokenStream.remaining_eq, TokenStream.remaining_eq] at hshorter
    rw [Reader.iterate_of_matched hlimit hread hshorter]
    cases hothers : reader.iterate (limit.map (· - 1)) s'.rest with
    | matched tokens values rest =>
      rw [hothers] at houtcome
      exact (hnot _ houtcome.symm).elim
    | mismatch =>
      rw [← houtcome, hothers]
      exact ⟨t, rfl, hextends.trans hextends', by simp⟩
    | tooDeep =>
      rw [← houtcome, hothers]
      exact ⟨t, rfl, hextends.trans hextends', by simp⟩
  | case6 limit s hlimit first s' hstep hshorter =>
    obtain ⟨hread, hextends⟩ := hround.attempts.matched hs hstep
    rw [TokenStream.remaining_eq, TokenStream.remaining_eq] at hshorter
    rw [Reader.iterate_of_stalled hlimit hread hshorter]
    refine ⟨s', rfl, hextends, ?_⟩
    intro tokens values last hmatch
    cases hmatch
    rfl

/-! ### Steps in sequence -/

/-- Goes on after a match; a failure remains one. -/
def andThen (step : Step τ α) (next : Parsed τ α → Step τ β) : Step τ β := fun s ↦
  match step s with
  | (.matched a, s') => next a s'
  | (.mismatch, s') => (.mismatch, s')
  | (.tooDeep, s') => (.tooDeep, s')

/-- What follows a match begins where the match has left the reader. -/
theorem Attempts.andThen {step : Step τ α} {reader : Reader τ α} {next : Parsed τ α → Step τ β}
    {following : List τ → α → Reader τ β} (h : step.Attempts reader)
    (hnext : ∀ a, (next a).Attempts (following a.tokens a.value)) :
    (step.andThen next).Attempts fun tokens ↦ (reader tokens).bind following := by
  intro s hs
  unfold Step.andThen
  rcases hstep : step s with ⟨outcome, s'⟩
  cases outcome with
  | matched a =>
    obtain ⟨hread, hextends⟩ := h.matched hs hstep
    obtain ⟨s'', hstep', hextends', hlast⟩ := hnext a s' hextends.sound
    simp only [hread, Reading.bind_matched]
    exact ⟨s'', hstep', hextends.trans hextends', hlast⟩
  | mismatch =>
    obtain ⟨hread, hextends⟩ := h.mismatch hs hstep
    simp only [hread, Reading.bind_mismatch]
    exact ⟨s', rfl, hextends, by simp⟩
  | tooDeep =>
    obtain ⟨hread, hextends⟩ := h.tooDeep hs hstep
    simp only [hread, Reading.bind_tooDeep]
    exact ⟨s', rfl, hextends, by simp⟩

/-- A match of nothing more leaves the reader where it is. -/
theorem attempts_matched (parsed : Parsed τ α) :
    Attempts (fun s ↦ (.matched parsed, s)) fun tokens ↦
      .matched parsed.tokens parsed.value tokens :=
  fun s hs ↦ ⟨s, rfl, .refl hs, by simp⟩

end Step

namespace Parser

variable {ρ : ι → Type}

/-- A literal text is found exactly if what is left begins with it, and then what is behind it is
left. -/
theorem expect_eq [DecidableEq τ] (text : List τ) {s : TokenStream τ} (hs : s.Sound) :
    ∃ s', expect text s = ((text.isPrefixOf? s.rest).isSome, s') ∧ s.Extends s' ∧
      ∀ rest, text.isPrefixOf? s.rest = some rest → s'.rest = rest := by
  induction text generalizing s with
  | nil => exact ⟨s, rfl, .refl hs, by simp [List.isPrefixOf?]⟩
  | cons wanted others ih =>
    cases hrest : s.rest with
    | nil =>
      have hfill := TokenStream.extends_fill hs s.position
      refine ⟨s.fill s.position, ?_, hfill, by simp [List.isPrefixOf?]⟩
      rw [expect, TokenStream.consume_of_rest_nil hs hrest]
      rfl
    | cons token rest =>
      obtain ⟨s', hconsume, hextends, hleft, -⟩ := TokenStream.consume_of_rest_cons hs hrest
      rw [expect, hconsume]
      by_cases heq : token = wanted
      · obtain ⟨t, ht, hextends', hothers⟩ := ih hextends.sound
        rw [hleft] at ht hothers
        subst heq
        refine ⟨t, ?_, hextends.trans hextends', ?_⟩
        · simpa [List.isPrefixOf?] using ht
        · simpa [List.isPrefixOf?] using hothers
      · have hne : wanted ≠ token := fun h ↦ heq h.symm
        refine ⟨s', ?_, hextends, ?_⟩
        · simp [heq, List.isPrefixOf?, hne]
        · simp [List.isPrefixOf?, hne]

variable {run : (rule : ι) → Step τ (ρ rule)} {calls : (rule : ι) → Reader τ (ρ rule)}

/-! ### One lemma for each form of a parser -/

/-- The attempt at one token reads the head of what is left. -/
theorem attempts_satisfy (accepts : τ → Bool) :
    Step.Attempts ((satisfy accepts : Parser τ ρ τ).attempt run)
      ((satisfy accepts : Parser τ ρ τ).read calls) := by
  intro s hs
  cases hrest : s.rest with
  | nil =>
    refine ⟨s.fill s.position, ?_, TokenStream.extends_fill hs _, by simp [read]⟩
    simp only [attempt, TokenStream.consume_of_rest_nil hs hrest]
    rfl
  | cons token rest =>
    obtain ⟨s', hconsume, hextends, hleft, -⟩ := TokenStream.consume_of_rest_cons hs hrest
    refine ⟨s', ?_, hextends, ?_⟩
    · simp only [attempt, hconsume, read]
      split_ifs <;> rfl
    · intro tokens value last hmatch
      simp only [read] at hmatch
      split_ifs at hmatch
      cases hmatch
      exact hleft

/-- The attempt at a text reads what is left up to the end of that text. -/
theorem attempts_literal [DecidableEq τ] (text : List τ) :
    Step.Attempts ((literal text : Parser τ ρ (List τ)).attempt run)
      ((literal text : Parser τ ρ (List τ)).read calls) := by
  intro s hs
  obtain ⟨s', hexpect, hextends, hleft⟩ := expect_eq text hs
  refine ⟨s', ?_, hextends, ?_⟩
  · simp only [attempt, hexpect, read]
    cases text.isPrefixOf? s.rest <;> rfl
  · intro tokens value last hmatch
    simp only [read] at hmatch
    split at hmatch
    · rename_i rest hprefix
      cases hmatch
      exact hleft _ hprefix
    · cases hmatch

/-- Each component is tried with the reader put back after a failure. -/
theorem attempts_both {first : Parser τ ρ α} {second : Parser τ ρ β}
    (hfirst : (first.attempt run).Attempts (first.read calls))
    (hsecond : (second.attempt run).Attempts (second.read calls)) :
    ((first.both second).attempt run).Attempts ((first.both second).read calls) :=
  hfirst.rewinding.attempts.andThen fun a ↦
    hsecond.rewinding.attempts.andThen fun b ↦
      Step.attempts_matched ⟨a.tokens ++ b.tokens, (a.value, b.value)⟩

/-- The second parser begins where the first one began. -/
theorem attempts_either {first second : Parser τ ρ α}
    (hfirst : (first.attempt run).Attempts (first.read calls))
    (hsecond : (second.attempt run).Attempts (second.read calls)) :
    ((first.either second).attempt run).Attempts ((first.either second).read calls) := by
  intro s hs
  simp only [attempt, read]
  rcases hstep : Step.rewinding (first.attempt run) s with ⟨outcome, s'⟩
  cases outcome with
  | matched a =>
    obtain ⟨hread, hextends⟩ := hfirst.rewinding.attempts.matched hs hstep
    rw [hread]
    exact ⟨s', rfl, hextends, by simp⟩
  | mismatch =>
    obtain ⟨hread, hextends⟩ := hfirst.rewinding.attempts.mismatch hs hstep
    have hrest := hfirst.rewinding.rest_of_mismatch hs hstep
    obtain ⟨s'', hstep', hextends', hlast⟩ := hsecond.rewinding.attempts s' hextends.sound
    rw [hrest] at hstep' hlast
    rw [hread]
    exact ⟨s'', hstep', hextends.trans hextends', hlast⟩
  | tooDeep =>
    obtain ⟨hread, hextends⟩ := hfirst.rewinding.attempts.tooDeep hs hstep
    rw [hread]
    exact ⟨s', rfl, hextends, by simp⟩

/-- Too few matches are none. -/
theorem attempts_several {item : Parser τ ρ α}
    (hitem : (item.attempt run).Attempts (item.read calls)) (least : Nat) (limit : Option Nat) :
    ((item.several least limit).attempt run).Attempts ((item.several least limit).read calls) := by
  have hattempt : (item.several least limit).attempt run =
      Step.andThen (Step.iterate (item.attempt run) limit) fun found s ↦
        if found.value.length < least then (.mismatch, s) else (.matched found, s) := by
    funext s
    simp only [attempt, Step.andThen]
    rcases Step.iterate (item.attempt run) limit s with ⟨_ | _ | _, s'⟩ <;> rfl
  rw [hattempt]
  refine (hitem.iterate limit).andThen fun found ↦ ?_
  by_cases hfew : found.value.length < least
  · simp only [hfew, ↓reduceIte]
    exact fun s hs ↦ ⟨s, rfl, .refl hs, by simp⟩
  · simp only [hfew, ↓reduceIte]
    exact Step.attempts_matched found

/-- A transformation reads what the parser inside reads. -/
theorem attempts_mapTokens {inner : Parser τ ρ α} (transform : List τ → α → β)
    (hinner : (inner.attempt run).Attempts (inner.read calls)) :
    ((inner.mapTokens transform).attempt run).Attempts ((inner.mapTokens transform).read calls) :=
  hinner.rewinding.attempts.andThen fun a ↦
    Step.attempts_matched ⟨a.tokens, transform a.tokens a.value⟩

/-- An attempt of a parser ends as its reading does. Each component is tried with the reader put
back after a failure, so the components before it are the only ones that have moved the reader. -/
theorem attempts_attempt (h : ∀ i, (run i).Attempts (calls i)) (p : Parser τ ρ α) :
    (p.attempt run).Attempts (p.read calls) := by
  induction p with
  | satisfy accepts => exact attempts_satisfy accepts
  | literal text => exact attempts_literal text
  | both first second ihFirst ihSecond => exact attempts_both ihFirst ihSecond
  | either first second ihFirst ihSecond => exact attempts_either ihFirst ihSecond
  | several item least limit ih => exact attempts_several ih least limit
  | mapTokens inner transform ih => exact attempts_mapTokens transform ih
  | call rule => exact h rule

/-- A parser run on a stream ends as its reading of the tokens that are left, and leaves the reader
where the reading stops, or where it began after a failure. -/
theorem realizes_tryParse (h : ∀ i, (run i).Attempts (calls i)) (p : Parser τ ρ α) :
    (p.tryParse run).Realizes (p.read calls) :=
  (attempts_attempt h p).rewinding

end Parser

/-- The rules of a grammar run on a stream as they read lists. -/
theorem Grammar.realizes_run {ρ : ι → Type} (g : Grammar τ ρ) (depth : Nat) (i : ι) :
    (g.run depth i).Realizes (g.read depth i) := by
  induction depth generalizing i with
  | zero => exact fun s hs ↦ ⟨s, rfl, .refl hs, rfl⟩
  | succ depth ih =>
    rw [run, read]
    cases g.rule i with
    | some p => exact Parser.realizes_tryParse (fun j ↦ (ih j).attempts) p
    | none => exact fun s hs ↦ ⟨s, rfl, .refl hs, rfl⟩

/-- Parsing a whole list yields a value exactly if the reading of the list leaves nothing. -/
theorem Grammar.value?_parseAll_eq_some_iff {ρ : ι → Type} {g : Grammar τ ρ} {depth : Nat}
    {p : Parser τ ρ α} {tokens : List τ} {value : α} :
    (g.parseAll depth p tokens).value? = some value ↔
      p.read (g.read depth) tokens = .matched tokens value [] := by
  have hrealizes := Parser.realizes_tryParse (fun i ↦ (g.realizes_run depth i).attempts) p
  obtain ⟨s, hparse, hextends, hrest⟩ :=
    hrealizes (TokenStream.ofList tokens) (TokenStream.sound_ofList tokens)
  rw [TokenStream.rest_ofList] at hparse hrest
  rw [parseAll, hparse]
  cases hread : p.read (g.read depth) tokens with
  | matched first a rest =>
    have hsplit := Parser.read_splits (g.read_splits depth) p hread
    rw [hread] at hrest
    simp only [Reading.outcome, TokenStream.isEos_fst hextends.sound, hrest, Reading.left]
    cases rest with
    | nil =>
      rw [List.append_nil] at hsplit
      simp [Outcome.value?, hsplit]
    | cons token others => simp [Outcome.value?]
  | mismatch => simp [Reading.outcome, Outcome.value?]
  | tooDeep => simp [Reading.outcome, Outcome.value?]

end DebugLink
