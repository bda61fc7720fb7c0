/-!
White space as the Unicode property has it, and the operations on text that go by it: trimming,
splitting into words, and squeezing runs of white space to one space.
-/

set_option autoImplicit false

namespace DebugLink

/-- The characters with the property White_Space: tab to carriage return, the space, next line, the
no-break and typographic spaces, the line and paragraph separators and the ideographic space. -/
def isWhitespace (c : Char) : Bool :=
  let n := c.toNat
  (9 ≤ n && n ≤ 13) || n == 0x20 || n == 0x85 || n == 0xa0 || n == 0x1680 ||
    (0x2000 ≤ n && n ≤ 0x200a) || n == 0x2028 || n == 0x2029 || n == 0x202f || n == 0x205f ||
    n == 0x3000

namespace Text

/-- Drops the characters at the end that pass a test. -/
def dropEndWhile (p : Char → Bool) (cs : List Char) : List Char :=
  (cs.reverse.dropWhile p).reverse

def trimStart (cs : List Char) : List Char :=
  cs.dropWhile isWhitespace

def trimEnd (cs : List Char) : List Char :=
  dropEndWhile isWhitespace cs

def trim (cs : List Char) : List Char :=
  trimEnd (trimStart cs)

/-- The first word of a text and what follows it; none when there is only white space. -/
def nextWord? (cs : List Char) : Option (List Char × List Char) :=
  match trimStart cs with
  | [] => none
  | c :: rest =>
    some (c :: rest.takeWhile (!isWhitespace ·), rest.dropWhile (!isWhitespace ·))

theorem length_lt_of_nextWord? {cs word rest : List Char}
    (h : nextWord? cs = some (word, rest)) : rest.length < cs.length := by
  have shorter : (trimStart cs).length ≤ cs.length := by
    rw [trimStart]
    exact (List.dropWhile_sublist _).length_le
  unfold nextWord? at h
  split at h
  · cases h
  · rename_i c tail heq
    simp only [Option.some.injEq, Prod.mk.injEq] at h
    obtain ⟨-, rfl⟩ := h
    rw [heq, List.length_cons] at shorter
    exact Nat.lt_of_lt_of_le (Nat.lt_succ_of_le (List.dropWhile_sublist _).length_le) shorter

/-- The maximal runs of characters that are not white space. -/
def words (cs : List Char) : List (List Char) :=
  match _h : nextWord? cs with
  | none => []
  | some (word, rest) => word :: words rest
termination_by cs.length
decreasing_by exact length_lt_of_nextWord? _h

/-- Whether a text holds nothing but white space. -/
def isBlank (s : String) : Bool :=
  s.toList.all isWhitespace

/-- Splits at a character, which is dropped. There is always one more piece than separators. -/
def splitAt (separator : Char) : List Char → List (List Char)
  | [] => [[]]
  | c :: rest =>
    if c = separator then [] :: splitAt separator rest
    else
      match splitAt separator rest with
      | [] => [[c]]
      | piece :: pieces => (c :: piece) :: pieces

/-- What follows a given beginning. -/
def dropBeginning? : List Char → List Char → Option (List Char)
  | [], cs => some cs
  | wanted :: others, c :: cs => if wanted = c then dropBeginning? others cs else none
  | _ :: _, [] => none

end Text

end DebugLink
