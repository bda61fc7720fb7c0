import DebugLink.Parser.Lexer
import DebugLink.Proofs.Parser.Reading
import DebugLink.Proofs.Text.Runs

/-!
How the derived parsers read. Each is described once by an equation or by when it matches, so that
a grammar is followed through these and never through the repetitions that the derived parsers are
made of. What a list with separators matches is a `Separated` list of items
(`separated_of_read_separatedBy`); conversely it takes up an item and goes on exactly as long as a
separator follows (`read_separatedBy_last`, `read_separatedBy_more`). Repeating a test on single
tokens takes the longest run of tokens that pass it (`read_zeroOrMore_satisfy`).
-/

set_option autoImplicit false

namespace DebugLink.Parser

variable {τ ι α β : Type} {ρ : ι → Type} {calls : (rule : ι) → Reader τ (ρ rule)}

/-! ### Single tokens, sequence and choice -/

/-- One token is read if it is accepted. -/
theorem read_satisfy_cons (accepts : τ → Bool) (token : τ) (rest : List τ) :
    (satisfy accepts : Parser τ ρ τ).read calls (token :: rest) =
      if accepts token then .matched [token] token rest else .mismatch := rfl

/-- Where nothing is left no token is read. -/
theorem read_satisfy_nil (accepts : τ → Bool) :
    (satisfy accepts : Parser τ ρ τ).read calls [] = .mismatch := rfl

/-- A function applied to the value changes neither what is read nor what is left. -/
theorem read_map (f : α → β) (p : Parser τ ρ α) (tokens : List τ) :
    (p.map f).read calls tokens =
      (p.read calls tokens).bind fun read a rest ↦ .matched read (f a) rest := rfl

/-- Two parsers in a row read one after the other. -/
theorem read_both (p : Parser τ ρ α) (q : Parser τ ρ β) (tokens : List τ) :
    (p.both q).read calls tokens =
      (p.read calls tokens).bind fun read a rest ↦
        (q.read calls rest).bind fun read' b rest' ↦ .matched (read ++ read') (a, b) rest' := rfl

/-- Two parsers in a row, of which the first one gives the value. -/
theorem read_thenSkip (p : Parser τ ρ α) (q : Parser τ ρ β) (tokens : List τ) :
    (p.thenSkip q).read calls tokens =
      (p.read calls tokens).bind fun read a rest ↦
        (q.read calls rest).bind fun read' _ rest' ↦ .matched (read ++ read') a rest' := by
  rw [thenSkip, read_map, read_both]
  cases p.read calls tokens with
  | matched first a rest =>
    simp only [Reading.bind_matched]
    cases q.read calls rest <;> rfl
  | mismatch => rfl
  | tooDeep => rfl

/-- Two parsers in a row, of which the second one gives the value. -/
theorem read_skipThen (p : Parser τ ρ α) (q : Parser τ ρ β) (tokens : List τ) :
    (p.skipThen q).read calls tokens =
      (p.read calls tokens).bind fun read _ rest ↦
        (q.read calls rest).bind fun read' b rest' ↦ .matched (read ++ read') b rest' := by
  rw [skipThen, read_map, read_both]
  cases p.read calls tokens with
  | matched first a rest =>
    simp only [Reading.bind_matched]
    cases q.read calls rest <;> rfl
  | mismatch => rfl
  | tooDeep => rfl

/-- If the first alternative matches the second one is not tried. -/
theorem read_either_of_matched {p : Parser τ ρ α} {q : Parser τ ρ α} {tokens first rest : List τ}
    {value : α} (h : p.read calls tokens = .matched first value rest) :
    (p.either q).read calls tokens = .matched first value rest := by
  simp only [read, h]

/-- If the first alternative fails the second one decides. -/
theorem read_either_of_mismatch {p : Parser τ ρ α} {q : Parser τ ρ α} {tokens : List τ}
    (h : p.read calls tokens = .mismatch) :
    (p.either q).read calls tokens = q.read calls tokens := by
  simp only [read, h]

/-- If the second alternative fails the first one decides. -/
theorem read_either_of_second_mismatch {p : Parser τ ρ α} {q : Parser τ ρ α} {tokens : List τ}
    (h : q.read calls tokens = .mismatch) :
    (p.either q).read calls tokens = p.read calls tokens := by
  cases hp : p.read calls tokens with
  | matched first value rest => exact read_either_of_matched hp
  | mismatch => rw [read_either_of_mismatch hp, h]
  | tooDeep => simp only [read, hp]

/-- A match of alternatives is one of the first or of the second. -/
theorem read_either_eq_matched {p : Parser τ ρ α} {q : Parser τ ρ α} {tokens first rest : List τ}
    {value : α} (h : (p.either q).read calls tokens = .matched first value rest) :
    p.read calls tokens = .matched first value rest ∨
      q.read calls tokens = .matched first value rest := by
  simp only [read] at h
  split at h
  · exact Or.inr h
  · exact Or.inl h

/-- Zero or more matches are an iteration without a limit. -/
theorem read_zeroOrMore (p : Parser τ ρ α) (tokens : List τ) :
    p.zeroOrMore.read calls tokens = Reader.iterate (p.read calls) none tokens := by
  simp only [zeroOrMore, read, Nat.not_lt_zero, ↓reduceIte]
  cases Reader.iterate (p.read calls) none tokens <;> rfl

/-- Several matches are an iteration that must make enough of them. -/
theorem read_several (p : Parser τ ρ α) (least : Nat) (limit : Option Nat) (tokens : List τ) :
    (p.several least limit).read calls tokens =
      (Reader.iterate (p.read calls) limit tokens).bind fun read values rest ↦
        if values.length < least then .mismatch else .matched read values rest := rfl

/-- What may be there is read if it is. -/
theorem read_optional_of_matched {p : Parser τ ρ α} {tokens first rest : List τ} {value : α}
    (h : p.read calls tokens = .matched first value rest) :
    p.optional.read calls tokens = .matched first (some value) rest := by
  have hlimit : (some 1 : Option Nat) ≠ some 0 := by simp
  have hiterate : Reader.iterate (p.read calls) (some 1) tokens = .matched first [value] rest := by
    by_cases hshorter : rest.length < tokens.length
    · rw [Reader.iterate_of_matched hlimit h hshorter]
      simp
    · exact Reader.iterate_of_stalled hlimit h hshorter
  rw [optional, read_map]
  simp only [read, hiterate]
  rfl

/-- What may be there is not missed if it is not. -/
theorem read_optional_of_mismatch {p : Parser τ ρ α} {tokens : List τ}
    (h : p.read calls tokens = .mismatch) :
    p.optional.read calls tokens = .matched [] none tokens := by
  rw [optional, read_map]
  simp only [read, Reader.iterate_of_mismatch h]
  rfl

/-- What an optional parser matches is a match of the parser, or nothing at all. -/
theorem read_optional_eq_matched {p : Parser τ ρ α} {tokens first rest : List τ}
    {value : Option α} (h : p.optional.read calls tokens = .matched first value rest) :
    (∃ a, value = some a ∧ p.read calls tokens = .matched first a rest) ∨
      value = none ∧ first = [] ∧ rest = tokens := by
  cases hp : p.read calls tokens with
  | matched read a left =>
    rw [read_optional_of_matched hp] at h
    cases h
    exact Or.inl ⟨a, rfl, rfl⟩
  | mismatch =>
    rw [read_optional_of_mismatch hp] at h
    cases h
    exact Or.inr ⟨rfl, rfl, rfl⟩
  | tooDeep =>
    have hlimit : (some 1 : Option Nat) ≠ some 0 := by simp
    rw [optional, read_map] at h
    simp [read, Reader.iterate_of_tooDeep hlimit hp] at h

/-! ### Lists with separators -/

/-- Items with separators between them, each item with the value made of it. -/
inductive Separated (Item : List τ → α → Prop) (Separator : List τ → Prop) :
    List τ → List α → Prop
  | last {item : List τ} {value : α} : Item item value → Separated Item Separator item [value]
  | more {item separator others : List τ} {value : α} {values : List α} :
    Item item value → Separator separator → Separated Item Separator others values →
      Separated Item Separator (item ++ separator ++ others) (value :: values)

/-- Items read with a separator in front of each are separated. -/
theorem separated_of_iterate {Item : List τ → α → Prop} {Separator : List τ → Prop}
    {reader : Reader τ α}
    (h : ∀ {tokens first rest value}, reader tokens = .matched first value rest →
      ∃ separator item, first = separator ++ item ∧ Separator separator ∧ Item item value)
    (limit : Option Nat) (tokens : List τ) :
    ∀ {first others rest value values}, Item first value →
      reader.iterate limit tokens = .matched others values rest →
        Separated Item Separator (first ++ others) (value :: values) := by
  fun_induction Reader.iterate reader limit tokens with
  | case1 tokens =>
    intro first others rest value values hfirst hmatch
    cases hmatch
    rw [List.append_nil]
    exact .last hfirst
  | case2 limit tokens hlimit hread =>
    intro first others rest value values hfirst hmatch
    cases hmatch
  | case3 limit tokens hlimit hread =>
    intro first others rest value values hfirst hmatch
    cases hmatch
    rw [List.append_nil]
    exact .last hfirst
  | case4 limit tokens hlimit found a left hread hshorter ih =>
    intro first others rest value values hfirst hmatch
    obtain ⟨more, moreValues, last, hmore, heq⟩ := Reading.bind_eq_matched_iff.mp hmatch
    cases heq
    obtain ⟨separator, item, rfl, hseparator, hitem⟩ := h hread
    have hsplit : first ++ (separator ++ item ++ more) = first ++ separator ++ (item ++ more) := by
      simp [List.append_assoc]
    rw [hsplit]
    exact .more hfirst hseparator (ih hitem hmore)
  | case5 limit tokens hlimit found a left hread hshorter =>
    intro first others rest value values hfirst hmatch
    cases hmatch
    obtain ⟨separator, item, rfl, hseparator, hitem⟩ := h hread
    rw [← List.append_assoc]
    exact .more hfirst hseparator (.last hitem)

/-- A list with separators is its first item and the rounds of a separator and an item. -/
theorem read_separatedBy (item : Parser τ ρ α) (separator : Parser τ ρ β) (tokens : List τ) :
    (item.separatedBy separator).read calls tokens =
      (item.read calls tokens).bind fun first value middle ↦
        (Reader.iterate ((separator.skipThen item).read calls) none middle).bind
          fun others values rest ↦ .matched (first ++ others) (value :: values) rest := by
  rw [separatedBy, read_map, read_both]
  cases item.read calls tokens with
  | matched first value middle =>
    simp only [Reading.bind_matched, read_zeroOrMore]
    cases Reader.iterate ((separator.skipThen item).read calls) none middle <;> rfl
  | mismatch => rfl
  | tooDeep => rfl

/-- A list with separators matches only items with separators between them. -/
theorem separated_of_read_separatedBy {Item : List τ → α → Prop} {Separator : List τ → Prop}
    {item : Parser τ ρ α} {separator : Parser τ ρ β}
    (hitem : ∀ {tokens first rest value}, item.read calls tokens = .matched first value rest →
      Item first value)
    (hseparator : ∀ {tokens first rest value},
      separator.read calls tokens = .matched first value rest → Separator first)
    {tokens first rest : List τ} {values : List α}
    (h : (item.separatedBy separator).read calls tokens = .matched first values rest) :
    Separated Item Separator first values := by
  rw [read_separatedBy, Reading.bind_eq_matched_iff] at h
  obtain ⟨head, a, middle, hhead, h⟩ := h
  obtain ⟨others, found, last, hiterate, heq⟩ := Reading.bind_eq_matched_iff.mp h
  cases heq
  refine separated_of_iterate ?_ none middle (hitem hhead) hiterate
  intro tokens first rest value hread
  rw [read_skipThen, Reading.bind_eq_matched_iff] at hread
  obtain ⟨read, b, between, hsep, hread⟩ := hread
  obtain ⟨read', c, last, hit, heq⟩ := Reading.bind_eq_matched_iff.mp hread
  cases heq
  exact ⟨read, read', rfl, hseparator hsep, hitem hit⟩

/-- Without a first item there is no list. -/
theorem read_separatedBy_of_mismatch {item : Parser τ ρ α} {separator : Parser τ ρ β}
    {tokens : List τ} (h : item.read calls tokens = .mismatch) :
    (item.separatedBy separator).read calls tokens = .mismatch := by
  rw [read_separatedBy, h]
  rfl

/-- A list ends after an item that no separator follows. -/
theorem read_separatedBy_last {item : Parser τ ρ α} {separator : Parser τ ρ β}
    {tokens first rest : List τ} {value : α}
    (hitem : item.read calls tokens = .matched first value rest)
    (hseparator : separator.read calls rest = .mismatch) :
    (item.separatedBy separator).read calls tokens = .matched first [value] rest := by
  have hround : (separator.skipThen item).read calls rest = .mismatch := by
    rw [read_skipThen, hseparator]
    rfl
  rw [read_separatedBy, hitem, Reading.bind_matched, Reader.iterate_of_mismatch hround,
    Reading.bind_matched, List.append_nil]

/-- A list goes on after an item that a separator and another list follow. -/
theorem read_separatedBy_more (hcalls : ∀ i, (calls i).Splits) {item : Parser τ ρ α}
    {separator : Parser τ ρ β} {tokens first middle between rest others last : List τ} {value : α}
    {values : List α} {mark : β}
    (hitem : item.read calls tokens = .matched first value middle)
    (hseparator : separator.read calls middle = .matched between mark rest)
    (hbetween : between ≠ [])
    (hothers : (item.separatedBy separator).read calls rest = .matched others values last) :
    (item.separatedBy separator).read calls tokens =
      .matched (first ++ between ++ others) (value :: values) last := by
  rw [read_separatedBy, Reading.bind_eq_matched_iff] at hothers
  obtain ⟨head, a, left, hhead, hothers⟩ := hothers
  obtain ⟨more, found, last', hiterate, heq⟩ := Reading.bind_eq_matched_iff.mp hothers
  cases heq
  have hround : (separator.skipThen item).read calls middle =
      .matched (between ++ head) a left := by
    rw [read_skipThen, hseparator, Reading.bind_matched, hhead, Reading.bind_matched]
  -- The separator is not empty, so each round is shorter than the one before.
  have hshorter : left.length < middle.length := by
    have hmiddle := congrArg List.length (read_splits hcalls separator hseparator)
    have hrest := congrArg List.length (read_splits hcalls item hhead)
    have hpos := List.length_pos_iff.mpr hbetween
    rw [List.length_append] at hmiddle hrest
    omega
  have hlimit : (none : Option Nat) ≠ some 0 := by simp
  rw [read_separatedBy, hitem, Reading.bind_matched,
    Reader.iterate_of_matched hlimit hround hshorter, Option.map_none, hiterate]
  simp only [Reading.bind_matched, List.append_assoc]

/-! ### Runs of single tokens -/

/-- Repeating a parser that takes single tokens takes the longest run of tokens that it takes. -/
theorem iterate_single {p : Parser τ ρ α} {accepts : τ → Bool} {value : τ → α}
    (hnil : p.read calls [] = .mismatch)
    (hcons : ∀ token rest, p.read calls (token :: rest) =
      if accepts token then .matched [token] (value token) rest else .mismatch)
    (tokens : List τ) :
    Reader.iterate (p.read calls) none tokens =
      .matched (tokens.takeWhile accepts) ((tokens.takeWhile accepts).map value)
        (tokens.dropWhile accepts) := by
  have hlimit : (none : Option Nat) ≠ some 0 := by simp
  induction tokens with
  | nil => rw [Reader.iterate_of_mismatch hnil]; rfl
  | cons token rest ih =>
    have hread := hcons token rest
    by_cases haccepts : accepts token = true
    · rw [if_pos haccepts] at hread
      rw [Reader.iterate_of_matched hlimit hread (Nat.lt_succ_self _), Option.map_none, ih]
      simp [List.takeWhile, List.dropWhile, haccepts]
    · rw [if_neg haccepts] at hread
      rw [Reader.iterate_of_mismatch hread]
      simp [List.takeWhile, List.dropWhile, haccepts]

/-- Iterating a test reads the longest run of tokens that pass it. -/
theorem iterate_satisfy (accepts : τ → Bool) (tokens : List τ) :
    Reader.iterate ((satisfy accepts : Parser τ ρ τ).read calls) none tokens =
      .matched (tokens.takeWhile accepts) (tokens.takeWhile accepts)
        (tokens.dropWhile accepts) := by
  rw [iterate_single (read_satisfy_nil accepts) (read_satisfy_cons accepts), List.map_id']

/-- Repeating a test on single tokens takes the longest run of tokens that pass it. -/
theorem read_zeroOrMore_satisfy (accepts : τ → Bool) (tokens : List τ) :
    (satisfy accepts : Parser τ ρ τ).zeroOrMore.read calls tokens =
      .matched (tokens.takeWhile accepts) (tokens.takeWhile accepts)
        (tokens.dropWhile accepts) := by
  rw [read_zeroOrMore, iterate_satisfy]

/-- A limit cuts the run of accepted tokens short. -/
theorem iterate_satisfy_some (accepts : τ → Bool) (limit : Nat) (tokens : List τ) :
    Reader.iterate ((satisfy accepts : Parser τ ρ τ).read calls) (some limit) tokens =
      .matched ((tokens.take limit).takeWhile accepts) ((tokens.take limit).takeWhile accepts)
        (tokens.drop ((tokens.take limit).takeWhile accepts).length) := by
  induction tokens generalizing limit with
  | nil =>
    rw [Reader.iterate_of_mismatch (read_satisfy_nil accepts)]
    simp
  | cons token rest ih =>
    cases limit with
    | zero => simp
    | succ limit =>
      have hlimit : (some (limit + 1) : Option Nat) ≠ some 0 := by simp
      have hread : (satisfy accepts : Parser τ ρ τ).read calls (token :: rest) =
          if accepts token then .matched [token] token rest else .mismatch :=
        read_satisfy_cons accepts token rest
      by_cases haccepts : accepts token = true
      · rw [if_pos haccepts] at hread
        rw [Reader.iterate_of_matched hlimit hread (Nat.lt_succ_self _), Option.map_some]
        simp [ih, haccepts]
      · rw [if_neg haccepts] at hread
        rw [Reader.iterate_of_mismatch hread]
        simp [haccepts]

/-- As `read_zeroOrMore_satisfy`, but the first token has to pass the test. -/
theorem read_oneOrMore_satisfy_cons (accepts : τ → Bool) (token : τ) (rest : List τ) :
    (satisfy accepts : Parser τ ρ τ).oneOrMore.read calls (token :: rest) =
      if accepts token then
        .matched (token :: rest.takeWhile accepts) (token :: rest.takeWhile accepts)
          (rest.dropWhile accepts)
      else .mismatch := by
  rw [oneOrMore, read_several, iterate_satisfy]
  by_cases haccepts : accepts token = true
  · simp [haccepts]
  · simp [haccepts]

/-- As `read_oneOrMore_satisfy_cons`, but no more than a number of tokens are taken. -/
theorem read_several_satisfy_cons (accepts : τ → Bool) (limit : Nat) (token : τ) (rest : List τ) :
    ((satisfy accepts : Parser τ ρ τ).several 1 (some (limit + 1))).read calls (token :: rest) =
      if accepts token then
        .matched (token :: (rest.take limit).takeWhile accepts)
          (token :: (rest.take limit).takeWhile accepts)
          (rest.drop ((rest.take limit).takeWhile accepts).length)
      else .mismatch := by
  rw [read_several, iterate_satisfy_some]
  by_cases haccepts : accepts token = true
  · simp [haccepts]
  · simp [haccepts]

/-! ### Repetition -/

/-- Items one after the other, each with the value made of it. -/
inductive Repeated (Item : List τ → α → Prop) : List τ → List α → Prop
  | nil : Repeated Item [] []
  | cons {item others : List τ} {value : α} {values : List α} :
    Item item value → Repeated Item others values →
      Repeated Item (item ++ others) (value :: values)

/-- Repeating a reader takes items one after the other. -/
theorem repeated_of_iterate {Item : List τ → α → Prop} {reader : Reader τ α}
    (h : ∀ {tokens first rest value}, reader tokens = .matched first value rest → Item first value)
    (limit : Option Nat) (tokens : List τ) :
    ∀ {first rest values}, reader.iterate limit tokens = .matched first values rest →
      Repeated Item first values := by
  fun_induction Reader.iterate reader limit tokens with
  | case1 tokens =>
    intro first rest values hmatch
    cases hmatch
    exact .nil
  | case2 limit tokens hlimit hread =>
    intro first rest values hmatch
    cases hmatch
  | case3 limit tokens hlimit hread =>
    intro first rest values hmatch
    cases hmatch
    exact .nil
  | case4 limit tokens hlimit found a left hread hshorter ih =>
    intro first rest values hmatch
    obtain ⟨more, moreValues, last, hmore, heq⟩ := Reading.bind_eq_matched_iff.mp hmatch
    cases heq
    exact .cons (h hread) (ih hmore)
  | case5 limit tokens hlimit found a left hread hshorter =>
    intro first rest values hmatch
    cases hmatch
    rw [← List.append_nil found]
    exact .cons (h hread) .nil

/-! ### Fixed texts -/

/-- A text is read off the front of the characters, if they begin with it. -/
theorem read_text {calls : (rule : ι) → Reader Char (ρ rule)} (expected : String)
    (chars : List Char) :
    (text expected : Parser Char ρ String).read calls chars =
      match expected.toList.isPrefixOf? chars with
      | some rest => .matched expected.toList expected rest
      | none => .mismatch := by
  rw [text, read_map]
  simp only [read]
  cases expected.toList.isPrefixOf? chars with
  | some rest => simp
  | none => rfl

/-! ### Classes of characters -/

/-- A class of characters that holds no character beyond ASCII is that of the listed characters if
these are the ones in it. -/
theorem oneOf_eq_satisfy {chars : String} {listed : List Char} {p : Char → Bool}
    (hchars : chars.toList = listed)
    (hlisted : ∀ n < 128, listed.contains (Char.ofNat n) = p (Char.ofNat n))
    (hascii : listed.all (·.toNat < 128) = true) (hclass : ∀ c, p c = true → c.toNat < 128) :
    (oneOf chars : Parser Char ρ Char) = .satisfy p := by
  have hp : (fun c ↦ chars.toList.contains c) = p := by
    funext c
    rw [hchars]
    by_cases hc : c.toNat < 128
    · exact Text.of_ascii (P := fun c ↦ listed.contains c = p c) hlisted hc
    · have hlist : listed.contains c = false := by
        rw [Bool.eq_false_iff]
        exact fun hmem ↦
          hc (of_decide_eq_true (List.all_eq_true.mp hascii c (List.contains_iff_mem.mp hmem)))
      have hfalse : p c = false := by
        rw [Bool.eq_false_iff]
        exact fun htrue ↦ hc (hclass c htrue)
      rw [hlist, hfalse]
  rw [oneOf, hp]

/-! ### Lexemes -/

section Kind

variable {κ : Type} [DecidableEq κ] {calls : (rule : ι) → Reader (Lexeme κ) (ρ rule)}

/-- One lexeme is read if it is of the kind. -/
theorem read_kind_cons (expected : κ) (lexeme : Lexeme κ) (rest : List (Lexeme κ)) :
    (kind expected : Parser (Lexeme κ) ρ String).read calls (lexeme :: rest) =
      if lexeme.kind = expected then .matched [lexeme] lexeme.text rest else .mismatch := by
  by_cases hkind : lexeme.kind = expected
  · simp [kind, read_map, read_satisfy_cons, hkind]
  · simp [kind, read_map, read_satisfy_cons, hkind]

/-- A kind matches exactly one lexeme, which is of that kind. -/
theorem read_kind_eq_matched {expected : κ} {lexemes first rest : List (Lexeme κ)} {text : String}
    (h : (kind expected : Parser (Lexeme κ) ρ String).read calls lexemes =
      .matched first text rest) :
    ∃ lexeme, lexeme.kind = expected ∧ first = [lexeme] ∧ text = lexeme.text ∧
      lexemes = lexeme :: rest := by
  cases lexemes with
  | nil => cases h
  | cons lexeme others =>
    rw [read_kind_cons] at h
    split_ifs at h with hkind
    cases h
    exact ⟨lexeme, hkind, rfl, rfl, rfl⟩

/-- A list goes on after a lexeme that separates its items. -/
theorem read_separatedBy_kind (hcalls : ∀ i, (calls i).Splits) {item : Parser (Lexeme κ) ρ α}
    {separating : κ} {mark : Lexeme κ} {first others rest : List (Lexeme κ)} {value : α}
    {values : List α} (hmark : mark.kind = separating)
    (hitem : item.read calls (first ++ (mark :: (others ++ rest))) =
      .matched first value (mark :: (others ++ rest)))
    (hothers : (item.separatedBy (kind separating)).read calls (others ++ rest) =
      .matched others values rest) :
    (item.separatedBy (kind separating)).read calls (first ++ [mark] ++ others ++ rest) =
      .matched (first ++ [mark] ++ others) (value :: values) rest := by
  have hseparator : (kind separating : Parser (Lexeme κ) ρ String).read calls
      (mark :: (others ++ rest)) = .matched [mark] mark.text (others ++ rest) := by
    rw [read_kind_cons, if_pos hmark]
  rw [List.append_assoc, List.append_assoc, List.singleton_append]
  exact read_separatedBy_more hcalls hitem hseparator (List.cons_ne_nil _ _) hothers

/-- No lexeme of a kind is read where none comes first. -/
theorem read_kind_of_ne {expected : κ} {lexemes : List (Lexeme κ)}
    (h : ∀ lexeme, lexemes.head? = some lexeme → lexeme.kind ≠ expected) :
    (kind expected : Parser (Lexeme κ) ρ String).read calls lexemes = .mismatch := by
  cases lexemes with
  | nil => rfl
  | cons lexeme others => rw [read_kind_cons, if_neg (h lexeme rfl)]

end Kind

end DebugLink.Parser
