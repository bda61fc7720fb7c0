/-!
Rewindable token streams. A stream looks at its source lazily: it pulls tokens one after the other
as they are needed, and remembers whether a pull has come back empty. Reading moves a position, and
any earlier position can be restored, because what was pulled is kept.
-/

set_option autoImplicit false

namespace DebugLink

/-- What was pulled from a source of tokens, what the source has left, and where the reader
stands. -/
structure TokenStream (τ : Type) where
  /-- The tokens pulled so far, which are kept. -/
  buffer : Array τ
  /-- The tokens that the source has not delivered yet. -/
  upcoming : List τ
  /-- The index of the next token to read. -/
  position : Nat
  /-- Whether a pull has found the end of the source. -/
  exhausted : Bool

namespace TokenStream

variable {τ : Type}

/-- A stream at the start of a list of tokens, with nothing pulled yet. -/
def ofList (tokens : List τ) : TokenStream τ :=
  ⟨#[], tokens, 0, false⟩

/-- The number of tokens pulled so far. -/
def buffered (s : TokenStream τ) : Nat :=
  s.buffer.size

/-- All tokens, those that were pulled and those that were not. -/
def source (s : TokenStream τ) : List τ :=
  s.buffer.toList ++ s.upcoming

/-- The tokens that the reader has not passed yet, pulled or not. -/
def rest (s : TokenStream τ) : List τ :=
  s.source.drop s.position

/-- How many tokens the reader has not passed yet. -/
def remaining (s : TokenStream τ) : Nat :=
  s.buffer.size + s.upcoming.length - s.position

/-- Pulls tokens until the one at `index` is buffered or the source has ended. -/
def fill (s : TokenStream τ) (index : Nat) : TokenStream τ :=
  if index < s.buffered then s
  else if s.exhausted then s
  else
    match _h : s.upcoming with
    | token :: others => fill { s with buffer := s.buffer.push token, upcoming := others } index
    | [] => { s with exhausted := true }
termination_by s.upcoming.length
decreasing_by exact _h ▸ Nat.lt_succ_self _

/-- The next token, left where it is. -/
def peek (s : TokenStream τ) : Option τ × TokenStream τ :=
  let filled := s.fill s.position
  if filled.position < filled.buffered then (filled.buffer[filled.position]?, filled)
  else (none, filled)

/-- The next token, passed over; at the end of the source nothing moves. -/
def consume (s : TokenStream τ) : Option τ × TokenStream τ :=
  match s.peek with
  | (some token, filled) => (some token, { filled with position := filled.position + 1 })
  | (none, filled) => (none, filled)

/-- Whether every token has been read. -/
def isEos (s : TokenStream τ) : Bool × TokenStream τ :=
  let filled := s.fill s.position
  (!decide (filled.position < filled.buffered), filled)

/-- The current position, to be restored with `backtrack`. -/
def savepoint (s : TokenStream τ) : Nat :=
  s.position

/-- Moves the reader to a position handed out by `savepoint`. -/
def backtrack (s : TokenStream τ) (savepoint : Nat) : TokenStream τ :=
  { s with position := savepoint }

/-- The state of the stream, in words. -/
def describe (s : TokenStream τ) : String :=
  "TokenStream \x7b position: " ++ toString s.position ++ ", buffered: " ++ toString s.buffered ++
    ", exhausted: " ++ toString s.exhausted ++ " \x7d"

end TokenStream

end DebugLink
