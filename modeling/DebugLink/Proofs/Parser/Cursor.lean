import DebugLink.Proofs.Parser.Stream

/-!
A token stream against an index into the list of all tokens. What a stream has buffered and what its
source has still to deliver are the two parts of this list.

A `Cursor` has no buffer: it replies from the list, and keeps a record of the indices at which it
looked. A stream `Follows` a cursor if it stands at the index of the cursor, has pulled as far as
the cursor has looked and no further, and knows the end of the source exactly if the cursor has
looked past it. Every access keeps that and brings the same reply (`Follows.perform`), so on every
course of a stream, in which the reader is only put back to positions handed out before, it replies
like the cursor (`Course.refines_cursor`).
-/

set_option autoImplicit false

namespace DebugLink.TokenStream

variable {τ : Type}

/-! ### Accesses -/

/-- What is asked of a stream. -/
inductive Access
  | consume
  | peek
  | isEos
  | savepoint
  | backtrack (position : Nat)
  deriving DecidableEq, Repr

/-- What a stream replies to an access. -/
inductive Reply (τ : Type)
  | token (found : Option τ)
  | verdict (ended : Bool)
  | position (index : Nat)
  | done
  deriving DecidableEq, Repr

/-- The reply to an access, and the stream afterwards. -/
def perform (s : TokenStream τ) : Access → Reply τ × TokenStream τ
  | .consume => (.token s.consume.1, s.consume.2)
  | .peek => (.token s.peek.1, s.peek.2)
  | .isEos => (.verdict s.isEos.1, s.isEos.2)
  | .savepoint => (.position s.savepoint, s)
  | .backtrack position => (.done, s.backtrack position)

/-- Whether the stream has handed out the position to which it is to be put back, if it is to be put
back at all. -/
def Access.Licensed (access : Access) (history : List (Access × Reply τ)) : Prop :=
  ∀ position, access = .backtrack position → (Access.savepoint, Reply.position position) ∈ history

/-- The accesses to a stream over a source, with the replies of the stream, and the stream that they
leave. -/
inductive Course (tokens : List τ) : List (Access × Reply τ) → TokenStream τ → Prop
  | start : Course tokens [] (ofList tokens)
  | more {history : List (Access × Reply τ)} {s : TokenStream τ} (h : Course tokens history s)
    (access : Access) (hlicensed : access.Licensed history) :
    Course tokens (history ++ [(access, (s.perform access).1)]) (s.perform access).2

/-! ### Cursors -/

/-- An index into a list of tokens, the indices at which it was looked, the last one first, and the
replies so far. -/
structure Cursor (τ : Type) where
  index : Nat
  examined : List Nat
  replies : List (Reply τ)

namespace Cursor

/-- A cursor that looks at its index and replies what it finds. -/
def examine (cursor : Cursor τ) (reply : Reply τ) : Cursor τ :=
  { cursor with
    examined := cursor.index :: cursor.examined
    replies := cursor.replies ++ [reply] }

/-- An access by index: only `consume` moves, and only where there is a token. -/
def perform (tokens : List τ) (cursor : Cursor τ) : Access → Cursor τ
  | .consume =>
    { cursor.examine (.token tokens[cursor.index]?) with
      index := if cursor.index < tokens.length then cursor.index + 1 else cursor.index }
  | .peek => cursor.examine (.token tokens[cursor.index]?)
  | .isEos => cursor.examine (.verdict (decide (tokens.length ≤ cursor.index)))
  | .savepoint => { cursor with replies := cursor.replies ++ [.position cursor.index] }
  | .backtrack position =>
    { cursor with index := position, replies := cursor.replies ++ [.done] }

/-- A cursor after accesses. -/
def after (tokens : List τ) (accesses : List Access) : Cursor τ :=
  accesses.foldl (perform tokens) ⟨0, [], []⟩

/-- The number of tokens up to the largest index at which it was looked. -/
def reach (tokens : List τ) (cursor : Cursor τ) : Nat :=
  cursor.examined.max?.elim 0 fun largest ↦ min tokens.length (largest + 1)

theorem after_append_singleton (tokens : List τ) (accesses : List Access) (access : Access) :
    after tokens (accesses ++ [access]) = (after tokens accesses).perform tokens access := by
  rw [after, List.foldl_append]
  rfl

theorem reach_examine (tokens : List τ) (cursor : Cursor τ) (reply : Reply τ) :
    (cursor.examine reply).reach tokens =
      max (cursor.reach tokens) (min tokens.length (cursor.index + 1)) := by
  unfold reach examine
  rw [List.max?_cons]
  cases cursor.examined.max? with
  | none => simp
  | some largest =>
    simp only [Option.elim_some]
    omega

end Cursor

/-! ### Following a cursor -/

/-- A stream stands where a cursor stands, and has pulled what the cursor has looked at. -/
structure Follows (tokens : List τ) (cursor : Cursor τ) (s : TokenStream τ) : Prop where
  sound : s.Sound
  source_eq : s.source = tokens
  position_eq : s.position = cursor.index
  buffered_eq : s.buffered = cursor.reach tokens
  exhausted_iff : s.exhausted = true ↔ ∃ index ∈ cursor.examined, tokens.length ≤ index

namespace Follows

variable {tokens : List τ} {cursor : Cursor τ} {s : TokenStream τ}

theorem start (tokens : List τ) : Follows tokens ⟨0, [], []⟩ (ofList tokens) :=
  ⟨sound_ofList tokens, source_ofList tokens, rfl, rfl, by simp [ofList]⟩

theorem head?_rest (h : Follows tokens cursor s) : s.rest.head? = tokens[cursor.index]? := by
  rw [rest, List.head?_drop, h.source_eq, h.position_eq]

theorem rest_eq_nil_iff (h : Follows tokens cursor s) :
    s.rest = [] ↔ tokens.length ≤ cursor.index := by
  rw [← List.head?_eq_none_iff, h.head?_rest, List.getElem?_eq_none_iff]

/-- To pull for the reader is to look at the index. -/
theorem fill (h : Follows tokens cursor s) (reply : Reply τ) :
    Follows tokens (cursor.examine reply) (s.fill s.position) := by
  have hextends := extends_fill h.sound s.position
  refine ⟨hextends.sound, hextends.source_eq.trans h.source_eq,
    (position_fill s _).trans h.position_eq, ?_, ?_⟩
  · rw [buffered_fill h.sound, Cursor.reach_examine, ← h.buffered_eq, h.source_eq, h.position_eq]
  · rw [exhausted_fill h.sound]
    simp only [Bool.or_eq_true, decide_eq_true_eq, h.exhausted_iff, h.source_eq, h.position_eq]
    rw [Cursor.examine, List.exists_mem_cons_iff, or_comm]

theorem peek (h : Follows tokens cursor s) :
    s.peek.1 = tokens[cursor.index]? ∧ ∀ reply, Follows tokens (cursor.examine reply) s.peek.2 := by
  rw [peek_eq h.sound]
  exact ⟨h.head?_rest, h.fill⟩

/-- Reading moves the reader exactly if there is a token. -/
theorem consume_eq (h : s.Sound) : s.consume = (s.rest.head?,
    { s.fill s.position with position := s.position + if s.rest = [] then 0 else 1 }) := by
  have hposition := position_fill s s.position
  rw [TokenStream.consume, peek_eq h]
  generalize s.fill s.position = filled at hposition ⊢
  rw [← hposition]
  cases s.rest <;> rfl

theorem consume (h : Follows tokens cursor s) :
    s.consume.1 = tokens[cursor.index]? ∧ ∀ reply, Follows tokens
      { cursor.examine reply with
        index := if cursor.index < tokens.length then cursor.index + 1 else cursor.index }
      s.consume.2 := by
  have hsound := (extends_consume h.sound).sound
  rw [consume_eq h.sound] at hsound ⊢
  refine ⟨h.head?_rest, fun reply ↦ ?_⟩
  have hfill := h.fill reply
  refine ⟨hsound, hfill.source_eq, ?_, hfill.buffered_eq, hfill.exhausted_iff⟩
  show s.position + (if s.rest = [] then 0 else 1) = _
  rw [h.position_eq]
  simp only [h.rest_eq_nil_iff]
  split_ifs <;> omega

theorem isEos (h : Follows tokens cursor s) :
    s.isEos.1 = decide (tokens.length ≤ cursor.index) ∧
      ∀ reply, Follows tokens (cursor.examine reply) s.isEos.2 := by
  refine ⟨?_, h.fill⟩
  rw [isEos_fst h.sound, Bool.eq_iff_iff, List.isEmpty_iff, h.rest_eq_nil_iff, decide_eq_true_iff]

/-- Every access brings the reply of the cursor, and the stream goes on following. What was pulled
stays. -/
theorem perform (h : Follows tokens cursor s) {access : Access}
    (hpulled : ∀ position, access = .backtrack position → position ≤ s.buffered) :
    (cursor.perform tokens access).replies = cursor.replies ++ [(s.perform access).1] ∧
      Follows tokens (cursor.perform tokens access) (s.perform access).2 ∧
      s.buffered ≤ (s.perform access).2.buffered := by
  cases access with
  | consume =>
    obtain ⟨hreply, hfollows⟩ := h.consume
    refine ⟨?_, hfollows _, (extends_consume h.sound).buffered_le⟩
    show cursor.replies ++ [.token tokens[cursor.index]?] = cursor.replies ++ [.token s.consume.1]
    rw [hreply]
  | peek =>
    obtain ⟨hreply, hfollows⟩ := h.peek
    refine ⟨?_, hfollows _, (extends_peek h.sound).buffered_le⟩
    show cursor.replies ++ [.token tokens[cursor.index]?] = cursor.replies ++ [.token s.peek.1]
    rw [hreply]
  | isEos =>
    obtain ⟨hreply, hfollows⟩ := h.isEos
    refine ⟨?_, hfollows _, (extends_isEos h.sound).buffered_le⟩
    show cursor.replies ++ [.verdict (decide (tokens.length ≤ cursor.index))] =
      cursor.replies ++ [.verdict s.isEos.1]
    rw [hreply]
  | savepoint =>
    refine ⟨?_, ⟨h.sound, h.source_eq, h.position_eq, h.buffered_eq, h.exhausted_iff⟩, le_rfl⟩
    show cursor.replies ++ [.position cursor.index] = cursor.replies ++ [.position s.position]
    rw [h.position_eq]
  | backtrack position =>
    exact ⟨rfl, ⟨h.sound.backtrack (hpulled position rfl), h.source_eq, rfl, h.buffered_eq,
      h.exhausted_iff⟩, le_rfl⟩

end Follows

/-! ### Courses -/

namespace Course

variable {tokens : List τ} {history : List (Access × Reply τ)} {s : TokenStream τ}

/-- A stream follows the cursor that the same accesses move, and every position that it has handed
out is still among what was pulled. -/
theorem follows (h : Course tokens history s) :
    history.map Prod.snd = (Cursor.after tokens (history.map Prod.fst)).replies ∧
      Follows tokens (Cursor.after tokens (history.map Prod.fst)) s ∧
      ∀ position, (.savepoint, .position position) ∈ history → position ≤ s.buffered := by
  induction h with
  | start => exact ⟨rfl, .start tokens, fun _ hmem ↦ nomatch hmem⟩
  | @more history s _ access hlicensed ih =>
    obtain ⟨hreplies, hfollows, hsaved⟩ := ih
    obtain ⟨hreply, hafter, hkept⟩ := hfollows.perform fun position haccess ↦
      hsaved position (hlicensed position haccess)
    rw [List.map_append, List.map_append, List.map_singleton, List.map_singleton,
      Cursor.after_append_singleton, hreply, hreplies]
    refine ⟨rfl, hafter, fun position hmem ↦ ?_⟩
    rcases List.mem_append.mp hmem with hold | hnew
    · exact (hsaved position hold).trans hkept
    · -- A position is handed out where the reader stands, which is among what was pulled.
      obtain ⟨rfl, hposition⟩ := Prod.mk.inj (List.mem_singleton.mp hnew)
      obtain rfl : position = s.position := Reply.position.inj hposition
      exact hfollows.sound.position_le

/-- On every course of a stream the replies are those of an index into the list of all tokens, and
the reader stands at this index. The buffer holds the first tokens, up to the largest index at which
the cursor looked, and none if it did not look, and the source has the others; the end of the source
is known exactly if one of these looks went past it. The reader stands among what is buffered, and
so does every position that was handed out. -/
theorem refines_cursor (h : Course tokens history s) :
    let cursor := Cursor.after tokens (history.map Prod.fst)
    history.map Prod.snd = cursor.replies ∧
      s.position = cursor.index ∧
      s.buffer.toList = tokens.take
        (cursor.examined.max?.elim 0 fun largest ↦ min tokens.length (largest + 1)) ∧
      s.buffer.toList ++ s.upcoming = tokens ∧
      (s.exhausted = true ↔ ∃ index ∈ cursor.examined, tokens.length ≤ index) ∧
      s.position ≤ s.buffer.size ∧
      ∀ position, (.savepoint, .position position) ∈ history → position ≤ s.buffer.size := by
  obtain ⟨hreplies, hfollows, hsaved⟩ := h.follows
  refine ⟨hreplies, hfollows.position_eq, ?_, hfollows.source_eq, hfollows.exhausted_iff,
    hfollows.sound.position_le, hsaved⟩
  rw [toList_buffer, hfollows.source_eq, hfollows.buffered_eq]
  rfl

/-- A token is read, the end is met, and the token is looked at again. -/
theorem refines_cursor_of_rewinding :
    ∃ (history : List (Access × Reply Char)) (s : TokenStream Char), Course ['x'] history s ∧
      history.map Prod.fst = [.savepoint, .consume, .consume, .isEos, .backtrack 0, .peek] ∧
      history.map Prod.snd =
        [.position 0, .token (some 'x'), .token none, .verdict true, .done, .token (some 'x')] ∧
      s.position = 0 ∧ s.buffer.toList = ['x'] ∧ s.exhausted = true := by
  have hstart : Course ['x'] [] (ofList ['x']) := .start
  have hread := ((hstart.more .savepoint nofun).more .consume nofun).more .consume nofun
  have hback := (hread.more .isEos nofun).more (.backtrack 0) <| by
    rintro _ ⟨⟩
    exact List.mem_cons_self
  have hcourse := hback.more .peek nofun
  obtain ⟨hreplies, hposition, hbuffer, -, hexhausted, -⟩ := hcourse.refines_cursor
  exact ⟨_, _, hcourse, rfl, hreplies, hposition, hbuffer, hexhausted.mpr ⟨1, by decide⟩⟩

end Course

end DebugLink.TokenStream
