import DebugLink.Parser.Stream
import Mathlib.Order.Lattice
import Mathlib.Data.List.Basic

/-!
What reading does to a token stream. A stream that was made by reading, looking ahead and going
back is `Sound`: the reader stands among what was pulled, and the end was found only after
everything had been pulled. Pulling moves tokens from the source to the buffer, and the two together
stay the same (`source_fill`). On a sound stream the lazily filled buffer cannot be told from the
whole source: `consume` takes the first of the tokens that are left, and fails only when none are
left (`consume_of_rest_cons`, `consume_of_rest_nil`).

`Reached` is the set of streams that come about by these operations over a given source, and
`reached_iff` says that they are exactly the sound ones.
-/

set_option autoImplicit false

namespace DebugLink.TokenStream

variable {τ : Type}

/-! ### Buffer and source -/

/-- No more tokens are buffered than the source has. -/
theorem buffered_le (s : TokenStream τ) : s.buffered ≤ s.source.length := by
  rw [source, List.length_append, Array.length_toList]
  exact Nat.le_add_right _ _

/-- The buffer holds the first tokens of the source. -/
theorem toList_buffer (s : TokenStream τ) : s.buffer.toList = s.source.take s.buffered := by
  rw [source, buffered, ← Array.length_toList, List.take_left]

/-- A buffered token is the one at its place in the source. -/
theorem getElem?_buffer {s : TokenStream τ} {index : Nat} (h : index < s.buffered) :
    s.buffer[index]? = s.source[index]? := by
  rw [← Array.getElem?_toList, source, List.getElem?_append_left (by rwa [Array.length_toList])]

/-- All was pulled if the source has nothing left. -/
theorem buffered_eq_iff {s : TokenStream τ} : s.buffered = s.source.length ↔ s.upcoming = [] := by
  rw [source, List.length_append, Array.length_toList, buffered, ← List.length_eq_zero_iff]
  omega

/-- A stream is determined by all its tokens, how many of them were pulled, where the reader stands,
and whether the end was found. -/
theorem ext_source {s s' : TokenStream τ} (hsource : s.source = s'.source)
    (hbuffered : s.buffered = s'.buffered) (hposition : s.position = s'.position)
    (hexhausted : s.exhausted = s'.exhausted) : s = s' := by
  have hbuffer : s.buffer.toList = s'.buffer.toList := by
    rw [toList_buffer, toList_buffer, hsource, hbuffered]
  have hupcoming : s.upcoming = s'.upcoming := by
    unfold source at hsource
    rw [hbuffer] at hsource
    exact List.append_cancel_left hsource
  cases s
  cases s'
  simp_all

/-! ### Sound streams -/

/-- What holds of a stream however it was read. -/
structure Sound (s : TokenStream τ) : Prop where
  position_le : s.position ≤ s.buffered
  upcoming_of_exhausted : s.exhausted = true → s.upcoming = []

/-- An exhausted stream has buffered its whole source. -/
theorem Sound.pulled_of_exhausted {s : TokenStream τ} (h : s.Sound)
    (hexhausted : s.exhausted = true) : s.buffered = s.source.length :=
  buffered_eq_iff.mpr (h.upcoming_of_exhausted hexhausted)

/-- What reading leaves as it was: the tokens, and everything that was pulled. The stream that
results is sound again. -/
structure Extends (s s' : TokenStream τ) : Prop where
  source_eq : s'.source = s.source
  buffered_le : s.buffered ≤ s'.buffered
  sound : s'.Sound

/-- A sound stream extends itself. -/
theorem Extends.refl {s : TokenStream τ} (h : s.Sound) : s.Extends s :=
  ⟨rfl, le_rfl, h⟩

/-- What extends an extension extends the first stream. -/
theorem Extends.trans {first middle last : TokenStream τ} (h : first.Extends middle)
    (h' : middle.Extends last) : first.Extends last :=
  ⟨h'.source_eq.trans h.source_eq, h.buffered_le.trans h'.buffered_le, h'.sound⟩

/-- A new stream is sound. -/
theorem sound_ofList (tokens : List τ) : (ofList tokens).Sound :=
  ⟨le_rfl, fun h ↦ by simp [ofList] at h⟩

/-- A new stream has the given tokens as its source. -/
@[simp] theorem source_ofList (tokens : List τ) : (ofList tokens).source = tokens :=
  List.nil_append tokens

/-- Nothing of a new stream is consumed. -/
@[simp] theorem rest_ofList (tokens : List τ) : (ofList tokens).rest = tokens := by
  rw [rest, source_ofList]
  rfl

/-- The count of what remains is the length of the rest. -/
theorem remaining_eq (s : TokenStream τ) : s.remaining = s.rest.length := by
  rw [remaining, rest, List.length_drop, source, List.length_append, Array.length_toList]

/-- On sound streams over one source, what is left says where the reader stands. -/
theorem position_add_length_rest {s : TokenStream τ} (h : s.Sound) :
    s.position + s.rest.length = s.source.length := by
  have hposition := h.position_le.trans s.buffered_le
  rw [rest, List.length_drop]
  omega

/-- The reader moves by the tokens that it has passed. -/
theorem Extends.position_eq {s s' : TokenStream τ} (h : s.Extends s') (hs : s.Sound)
    {read : List τ} (hrest : s.rest = read ++ s'.rest) :
    s'.position = s.position + read.length := by
  have hbefore := position_add_length_rest hs
  have hafter := position_add_length_rest h.sound
  rw [hrest, List.length_append] at hbefore
  rw [h.source_eq] at hafter
  omega

/-- The reader of a sound stream may be put back anywhere among what was pulled. -/
theorem Sound.backtrack {s : TokenStream τ} (h : s.Sound) {position : Nat}
    (hposition : position ≤ s.buffered) : (s.backtrack position).Sound :=
  ⟨hposition, h.upcoming_of_exhausted⟩

/-- Putting the reader back to where it stood brings back all that was left there. -/
theorem Extends.rest_backtrack {s s' : TokenStream τ} (h : s.Extends s') :
    (s'.backtrack s.savepoint).rest = s.rest := by
  show s'.source.drop s.position = s.source.drop s.position
  rw [h.source_eq]

/-- Backtracking to a savepoint extends the stream in which it was taken: what was pulled since is
kept. -/
theorem Extends.backtrack {s s' : TokenStream τ} (h : s.Extends s') (hs : s.Sound) :
    s.Extends (s'.backtrack s.savepoint) :=
  ⟨h.source_eq, h.buffered_le, h.sound.backtrack (hs.position_le.trans h.buffered_le)⟩

/-! ### Filling the buffer -/

/-- What pulling one token makes of a stream. -/
def pulled (s : TokenStream τ) (token : τ) (others : List τ) : TokenStream τ :=
  { s with buffer := s.buffer.push token, upcoming := others }

/-- Pulling moves a token from what is upcoming to the buffer and leaves the source as it is. -/
theorem source_pulled {s : TokenStream τ} {token : τ} {others : List τ}
    (h : s.upcoming = token :: others) : (s.pulled token others).source = s.source := by
  rw [source, source, h, pulled, Array.toList_push, List.append_assoc, List.singleton_append]

/-- Pulling buffers one more token. -/
theorem buffered_pulled (s : TokenStream τ) (token : τ) (others : List τ) :
    (s.pulled token others).buffered = s.buffered + 1 :=
  Array.size_push token

/-- Pulling takes nothing away and brings nothing up. -/
theorem source_fill (s : TokenStream τ) (index : Nat) : (s.fill index).source = s.source := by
  fun_induction fill s index with
  | case1 => rfl
  | case2 => rfl
  | case3 s _ _ token others hupcoming ih => exact ih.trans (source_pulled hupcoming)
  | case4 => rfl

/-- Filling the buffer does not move the reader. -/
theorem position_fill (s : TokenStream τ) (index : Nat) :
    (s.fill index).position = s.position := by
  fun_induction fill s index with
  | case1 => rfl
  | case2 => rfl
  | case3 s _ _ token others hupcoming ih => exact ih
  | case4 => rfl

/-- A sound stream stays sound when a token is pulled. -/
theorem Sound.pulled {s : TokenStream τ} (h : s.Sound) (hopen : ¬s.exhausted = true) (token : τ)
    (others : List τ) : (s.pulled token others).Sound :=
  ⟨h.position_le.trans (by rw [buffered_pulled]; exact Nat.le_succ _),
    fun hend ↦ absurd hend hopen⟩

/-- Pulling pulls exactly up to the index, as far as there are tokens. -/
theorem buffered_fill {s : TokenStream τ} (h : s.Sound) (index : Nat) :
    (s.fill index).buffered = max s.buffered (min s.source.length (index + 1)) := by
  fun_induction fill s index with
  | case1 s hlt =>
    have hbuffered := s.buffered_le
    omega
  | case2 s hlt hend =>
    have hall := h.pulled_of_exhausted hend
    omega
  | case3 s hlt hopen token others hupcoming ih =>
    have hmore := (s.pulled token others).buffered_le
    have hfilled := ih (h.pulled hopen token others)
    change _ = max (s.pulled token others).buffered
      (min (s.pulled token others).source.length (index + 1)) at hfilled
    rw [buffered_pulled, source_pulled hupcoming] at hmore hfilled
    rw [hfilled]
    omega
  | case4 s hlt hopen hupcoming =>
    have hall : s.buffered = s.source.length := buffered_eq_iff.mpr hupcoming
    show s.buffered = _
    omega

/-- Pulling finds the end exactly if there is no token at the index. -/
theorem exhausted_fill {s : TokenStream τ} (h : s.Sound) (index : Nat) :
    (s.fill index).exhausted = (s.exhausted || decide (s.source.length ≤ index)) := by
  fun_induction fill s index with
  | case1 s hlt =>
    have hbuffered := s.buffered_le
    rw [decide_eq_false (by omega), Bool.or_false]
  | case2 s hlt hend => rw [hend, Bool.true_or]
  | case3 s hlt hopen token others hupcoming ih =>
    have hfilled := ih (h.pulled hopen token others)
    change _ = (s.exhausted || decide ((s.pulled token others).source.length ≤ index)) at hfilled
    rwa [source_pulled hupcoming] at hfilled
  | case4 s hlt hopen hupcoming =>
    have hall : s.buffered = s.source.length := buffered_eq_iff.mpr hupcoming
    rw [decide_eq_true (by omega), Bool.or_true]

/-- Pulling changes neither the tokens nor the place of the reader. -/
theorem extends_fill {s : TokenStream τ} (h : s.Sound) (index : Nat) :
    s.Extends (s.fill index) := by
  have hposition := h.position_le
  have hbuffered := s.buffered_le
  refine ⟨source_fill s index, by rw [buffered_fill h]; exact le_max_left _ _, ⟨?_, ?_⟩⟩
  · rw [position_fill, buffered_fill h]
    exact hposition.trans (le_max_left _ _)
  · intro hend
    rw [← buffered_eq_iff, source_fill, buffered_fill h]
    rw [exhausted_fill h] at hend
    rcases (Bool.or_eq_true _ _).mp hend with hend | hend
    · have hall := h.pulled_of_exhausted hend
      omega
    · have hsize : s.source.length ≤ index := of_decide_eq_true hend
      omega

/-- Filling the buffer leaves what is left to read. -/
theorem rest_fill (s : TokenStream τ) (index : Nat) : (s.fill index).rest = s.rest := by
  rw [rest, source_fill, position_fill]
  rfl

/-- After pulling for the reader there is a token in the buffer exactly if one is left. -/
theorem position_lt_buffered_fill_iff {s : TokenStream τ} (h : s.Sound) :
    (s.fill s.position).position < (s.fill s.position).buffered ↔ s.rest ≠ [] := by
  have hposition := h.position_le
  have hbuffered := s.buffered_le
  have hlength := position_add_length_rest h
  rw [position_fill, buffered_fill h, ← List.length_pos_iff]
  omega

/-! ### Reading -/

/-- The end is reported exactly when nothing is left. -/
theorem isEos_fst {s : TokenStream τ} (h : s.Sound) : s.isEos.1 = s.rest.isEmpty := by
  have hiff := position_lt_buffered_fill_iff h
  rw [isEos, Bool.eq_iff_iff]
  simp [hiff]

/-- Asking for the end only pulls tokens. -/
theorem extends_isEos {s : TokenStream τ} (h : s.Sound) : s.Extends s.isEos.2 :=
  extends_fill h _

/-- Asking for the end consumes nothing. -/
theorem rest_isEos (s : TokenStream τ) : s.isEos.2.rest = s.rest :=
  rest_fill s _

/-- Looking ahead shows the first of the tokens that are left. -/
theorem peek_eq {s : TokenStream τ} (h : s.Sound) :
    s.peek = (s.rest.head?, s.fill s.position) := by
  have hiff := position_lt_buffered_fill_iff h
  rw [peek]
  split_ifs with hlt
  · rw [getElem?_buffer hlt, source_fill, position_fill, rest, List.head?_drop]
  · have hnil : s.rest = [] := by
      by_contra hne
      exact hlt (hiff.mpr hne)
    rw [hnil]
    rfl

/-- Peeking only pulls tokens. -/
theorem extends_peek {s : TokenStream τ} (h : s.Sound) : s.Extends s.peek.2 := by
  rw [peek_eq h]
  exact extends_fill h _

/-- Without a token left, nothing is read and the reader stays. -/
theorem consume_of_rest_nil {s : TokenStream τ} (h : s.Sound) (hrest : s.rest = []) :
    s.consume = (none, s.fill s.position) := by
  rw [consume, peek_eq h, hrest]
  rfl

/-- With a token left, the first one is read and the reader moves past it. -/
theorem consume_of_rest_cons {s : TokenStream τ} (h : s.Sound) {token : τ} {rest : List τ}
    (hrest : s.rest = token :: rest) :
    ∃ s', s.consume = (some token, s') ∧ s.Extends s' ∧ s'.rest = rest ∧
      s'.position = s.position + 1 := by
  have hfill := extends_fill h s.position
  have hlt := (position_lt_buffered_fill_iff h).mpr (by simp [hrest])
  refine ⟨{ s.fill s.position with position := (s.fill s.position).position + 1 }, ?_, ?_, ?_, ?_⟩
  · rw [consume, peek_eq h, hrest]
    rfl
  · exact ⟨hfill.source_eq, hfill.buffered_le, ⟨hlt, hfill.sound.upcoming_of_exhausted⟩⟩
  · show (s.fill s.position).source.drop ((s.fill s.position).position + 1) = rest
    have hdrop : s.source.drop s.position = token :: rest := hrest
    rw [source_fill, position_fill, ← List.drop_drop, hdrop]
    rfl
  · exact congrArg (· + 1) (position_fill s s.position)

/-- Consuming pulls tokens and moves the reader forward. -/
theorem extends_consume {s : TokenStream τ} (h : s.Sound) : s.Extends s.consume.2 := by
  cases hrest : s.rest with
  | nil =>
    rw [consume_of_rest_nil h hrest]
    exact extends_fill h _
  | cons token rest =>
    obtain ⟨s', hconsume, hextends, -, -⟩ := consume_of_rest_cons h hrest
    rw [hconsume]
    exact hextends

/-! ### The streams that come about -/

/-- The streams that come about over a source. The reader may be put at any position among what was
pulled, and so at every position where it has ever stood. -/
inductive Reached (tokens : List τ) : TokenStream τ → Prop
  | start : Reached tokens (ofList tokens)
  | peek {s : TokenStream τ} : Reached tokens s → Reached tokens s.peek.2
  | consume {s : TokenStream τ} : Reached tokens s → Reached tokens s.consume.2
  | isEos {s : TokenStream τ} : Reached tokens s → Reached tokens s.isEos.2
  | backtrack {s : TokenStream τ} {position : Nat} (hposition : position ≤ s.buffered) :
    Reached tokens s → Reached tokens (s.backtrack position)

/-- Every stream that is reached is sound and still has the tokens that it began with as its source.
-/
theorem Reached.sound_and_source {tokens : List τ} {s : TokenStream τ} (h : s.Reached tokens) :
    s.Sound ∧ s.source = tokens := by
  induction h with
  | start => exact ⟨sound_ofList tokens, source_ofList tokens⟩
  | peek _ ih => exact ⟨(extends_peek ih.1).sound, (extends_peek ih.1).source_eq.trans ih.2⟩
  | consume _ ih =>
    exact ⟨(extends_consume ih.1).sound, (extends_consume ih.1).source_eq.trans ih.2⟩
  | isEos _ ih => exact ⟨(extends_isEos ih.1).sound, (extends_isEos ih.1).source_eq.trans ih.2⟩
  | backtrack hposition _ ih => exact ⟨ih.1.backtrack hposition, ih.2⟩

/-- The stream after the first tokens were read one after the other. -/
def consumed (tokens : List τ) (count : Nat) : TokenStream τ :=
  ⟨(tokens.take count).toArray, tokens.drop count, count, false⟩

/-- Consuming leaves the source as it is. -/
theorem source_consumed (tokens : List τ) (count : Nat) : (consumed tokens count).source = tokens :=
  List.take_append_drop count tokens

/-- As many tokens are buffered as were consumed. -/
theorem buffered_consumed {tokens : List τ} {count : Nat} (h : count ≤ tokens.length) :
    (consumed tokens count).buffered = count :=
  List.length_take_of_le h

/-- Reading the first tokens one after the other. -/
theorem reached_consumed (tokens : List τ) (count : Nat) (hcount : count ≤ tokens.length) :
    Reached tokens (consumed tokens count) := by
  induction count with
  | zero => exact .start
  | succ count ih =>
    have hless := Nat.le_of_succ_le hcount
    have hbefore := ih hless
    have hsound := hbefore.sound_and_source.1
    have hread := hbefore.consume
    have hhead : (consumed tokens count).rest.head? = some tokens[count] := by
      rw [rest, source_consumed, List.head?_drop]
      exact List.getElem?_eq_getElem hcount
    have hnext : (consumed tokens count).consume.2 = consumed tokens (count + 1) := by
      rw [TokenStream.consume, peek_eq hsound, hhead]
      refine ext_source ?_ ?_ (congrArg (· + 1) (position_fill _ _)) ?_
      · exact (source_fill _ _).trans ((source_consumed _ _).trans (source_consumed _ _).symm)
      · show (fill _ _).buffered = _
        rw [buffered_fill hsound, buffered_consumed hless, buffered_consumed hcount,
          source_consumed]
        show max count (min tokens.length (count + 1)) = count + 1
        omega
      · show (fill _ _).exhausted = false
        rw [exhausted_fill hsound, source_consumed]
        exact decide_eq_false (Nat.not_le.mpr hcount)
    rwa [hnext] at hread

/-- Every sound stream over a source comes about by reading. -/
theorem reached_iff {tokens : List τ} {s : TokenStream τ} :
    s.Reached tokens ↔ s.Sound ∧ s.source = tokens := by
  refine ⟨Reached.sound_and_source, ?_⟩
  rintro ⟨hsound, rfl⟩
  have hpulled := reached_consumed s.source s.buffered s.buffered_le
  have hbefore := hpulled.sound_and_source.1
  have hsource := source_consumed s.source s.buffered
  have hcount := buffered_consumed s.buffered_le
  cases hexhausted : s.exhausted with
  | false =>
    have hsame : (consumed s.source s.buffered).backtrack s.position = s :=
      ext_source hsource hcount rfl hexhausted.symm
    have hback := hpulled.backtrack (hsound.position_le.trans hcount.ge)
    rwa [hsame] at hback
  | true =>
    -- The end was found, so a look past the last token comes before the reader is put back.
    have hall := hsound.pulled_of_exhausted hexhausted
    have hfilled : (consumed s.source s.buffered).isEos.2.buffered = s.buffered := by
      show (fill _ _).buffered = _
      rw [buffered_fill hbefore, hsource, hcount, hall]
      omega
    have hended : (consumed s.source s.buffered).isEos.2.exhausted = true := by
      show (fill _ _).exhausted = _
      rw [exhausted_fill hbefore, hsource]
      exact decide_eq_true hall.ge
    have hsame : (consumed s.source s.buffered).isEos.2.backtrack s.position = s :=
      ext_source ((source_fill _ _).trans hsource) hfilled rfl (hended.trans hexhausted.symm)
    have hback := hpulled.isEos.backtrack (hsound.position_le.trans hfilled.ge)
    rwa [hsame] at hback

/-- Whatever extends a stream over a source is a stream over it. -/
theorem Extends.reached {tokens : List τ} {s s' : TokenStream τ} (h : s.Extends s')
    (hs : s.Reached tokens) : s'.Reached tokens :=
  reached_iff.mpr ⟨h.sound, h.source_eq.trans (reached_iff.mp hs).2⟩

end DebugLink.TokenStream
