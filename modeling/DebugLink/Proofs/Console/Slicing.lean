import DebugLink.Console.Entry
import DebugLink.Proofs.Console.Layout
import Mathlib.Data.List.Nodup

/-!
Reading a console line by offsets. Here words are taken by their index and text from a byte on,
either of which fails where there is no such word, or where the byte is not the first one of a
character. Read like that no line fails, and it asks for the same (`Action.ofSlices?_eq`), since
words are counted before one is taken, and all offsets are ends of words.
-/

set_option autoImplicit false

namespace DebugLink

/-! ### Offsets into text -/

namespace Text

variable {cs rest : List Char}

/-- The number of bytes of characters. -/
def byteSize : List Char → Nat
  | [] => 0
  | c :: cs => c.utf8Size + byteSize cs

/-- The characters from a byte on. There are none if it is beyond the end or within a character. -/
def sliceFrom? : Nat → List Char → Option (List Char)
  | 0, cs => some cs
  | _ + 1, [] => none
  | n + 1, c :: cs => if c.utf8Size ≤ n + 1 then sliceFrom? (n + 1 - c.utf8Size) cs else none

/-- From the byte behind some characters on there are the others. -/
theorem sliceFrom?_byteSize (front rest : List Char) :
    sliceFrom? (byteSize front) (front ++ rest) = some rest := by
  induction front with
  | nil => rw [byteSize, List.nil_append, sliceFrom?]
  | cons c front ih =>
    obtain ⟨n, hn⟩ := Nat.exists_eq_succ_of_ne_zero (c.utf8Size_pos).ne'
    have hsize : byteSize (c :: front) = n + byteSize front + 1 := by
      rw [byteSize, hn]
      omega
    rw [hsize, List.cons_append, sliceFrom?, hn, if_pos (by omega),
      show n + byteSize front + 1 - n.succ = byteSize front by omega, ih]

/-- The byte at which the first white space is. -/
def whitespaceOffset? : List Char → Option Nat
  | [] => none
  | c :: cs => if isWhitespace c then some 0 else (whitespaceOffset? cs).map (c.utf8Size + ·)

/-- The first white space, or the end, is where the characters before it end. -/
theorem whitespaceOffset?_getD (cs : List Char) :
    (whitespaceOffset? cs).getD (byteSize cs) = byteSize (cs.takeWhile (!isWhitespace ·)) := by
  induction cs with
  | nil => rfl
  | cons c cs ih =>
    rw [whitespaceOffset?]
    cases hspace : isWhitespace c with
    | true =>
      rw [List.takeWhile_cons_of_neg (by simp [hspace])]
      rfl
    | false =>
      rw [List.takeWhile_cons_of_pos (by simp [hspace]), byteSize, byteSize, ← ih]
      cases whitespaceOffset? cs <;> rfl

/-- Drops white space and then what comes before the next. -/
def dropWord? (cs : List Char) : Option (List Char) :=
  let cs := trimStart cs
  sliceFrom? ((whitespaceOffset? cs).getD (byteSize cs)) cs

theorem dropWord?_eq (cs : List Char) :
    dropWord? cs = some ((trimStart cs).dropWhile (!isWhitespace ·)) := by
  have hslice := sliceFrom?_byteSize ((trimStart cs).takeWhile (!isWhitespace ·))
    ((trimStart cs).dropWhile (!isWhitespace ·))
  rw [List.takeWhile_append_dropWhile] at hslice
  rw [dropWord?, whitespaceOffset?_getD, hslice]

/-- What is dropped is the first word. -/
theorem dropWord?_of_nextWord? {word : List Char} (h : nextWord? cs = some (word, rest)) :
    dropWord? cs = some rest := by
  have hstart := List.head?_dropWhile_not isWhitespace cs
  unfold nextWord? at h
  cases htrim : trimStart cs with
  | nil =>
    rw [htrim] at h
    cases h
  | cons c others =>
    rw [show cs.dropWhile isWhitespace = c :: others from htrim] at hstart
    have hc : isWhitespace c = false := hstart
    rw [htrim] at h
    cases h
    rw [dropWord?_eq, htrim, List.dropWhile_cons_of_pos (by simp [hc])]

theorem dropWord?_of_blank (h : nextWord? cs = none) : dropWord? cs = some [] := by
  have hblank : trimStart cs = [] := List.dropWhile_eq_nil_iff.mpr (blank_of_nextWord? h)
  rw [dropWord?_eq, hblank]
  rfl

/-- Drops several words. -/
def dropWords? : Nat → List Char → Option (List Char)
  | 0, cs => some cs
  | n + 1, cs => dropWord? cs >>= dropWords? n

end Text

/-! ### Words by index -/

namespace Arguments

variable (arguments : Arguments)

/-- What follows a number of words, without white space around it. -/
def restAfter? (skip : Nat) : Option String :=
  (Text.dropWords? skip arguments.text).map fun rest ↦ String.ofList (Text.trim rest)

/-- The words from an index on, which may be the one behind the last. -/
def wordsFrom? (index : Nat) : Option (List String) :=
  if index ≤ arguments.words.length then some (arguments.words.drop index) else none

theorem words_eq :
    arguments.words =
      match Text.nextWord? arguments.text with
      | none => []
      | some (word, rest) => String.ofList word :: (Text.words rest).map String.ofList := by
  rw [words, Text.words_eq]
  cases Text.nextWord? arguments.text <;> rfl

/-- The first word is found at index 0, and none if there is none. -/
theorem words_getElem?_getD : arguments.words[0]?.getD "" = arguments.headAndRest.1 := by
  rw [words_eq, headAndRest]
  cases Text.nextWord? arguments.text <;> rfl

theorem words_getElem? (h : 1 ≤ arguments.words.length) :
    arguments.words[0]? = some arguments.headAndRest.1 := by
  rw [← words_getElem?_getD, List.getElem?_eq_getElem h]
  rfl

/-- The text behind the first word is found, also if there is none. -/
theorem restAfter?_one : arguments.restAfter? 1 = some arguments.headAndRest.2 := by
  have hone : Text.dropWords? 1 arguments.text = Text.dropWord? arguments.text := by
    rw [Text.dropWords?]
    cases Text.dropWord? arguments.text <;> rfl
  rw [restAfter?, hone, headAndRest]
  cases hnext : Text.nextWord? arguments.text with
  | none =>
    rw [Text.dropWord?_of_blank hnext]
    rfl
  | some found => rw [Text.dropWord?_of_nextWord? hnext, Option.map_some]

/-- The words from the second one on are found if there is a first. -/
theorem wordsFrom?_one (h : 1 ≤ arguments.words.length) :
    arguments.wordsFrom? 1 = some arguments.words.tail := by
  rw [wordsFrom?, if_pos h, List.drop_one]

end Arguments

/-! ### Whole lines -/

/-- What a command asks for, its words taken by index and its text by offsets. Only these commands
take any of them without asking first. -/
def Entry.readSliced? (entry : Entry) (arguments : Arguments) :
    Option (Except ConsoleError Action) :=
  if entry.name = "b" then do
    let location ← arguments.words[0]?
    let condition ← arguments.restAfter? 1
    return .ok (.setBreak (conditional location condition))
  else if entry.name = "cond" then
    match arguments.number UInt32.size (arguments.words[0]?.getD "") with
    | .ok number => (arguments.restAfter? 1).map fun expression ↦ .ok (.condition number expression)
    | .error error => some (.error error)
  else if entry.name = "f" then do
    let path ← arguments.words[0]?
    let others ← arguments.wordsFrom? 1
    return .ok (.loadFile path others)
  else some (entry.read arguments)

/-- What a line without white space around it asks for, read by offsets. -/
def Action.ofTrimmed? (line : List Char) : Option (Except ConsoleError (Option Action)) :=
  match (Text.words line).head? with
  | none => some (.ok none)
  | some name =>
    match Entry.find (String.ofList name) with
    | .error error => some (.error error)
    | .ok entry => do
      let rest ← Text.sliceFrom? (Text.byteSize name) line
      let arguments : Arguments := ⟨entry.name, Text.trim rest⟩
      if entry.accepts arguments.words.length then
        return some <$> (← entry.readSliced? arguments)
      else return .error (.arity entry.usage)

/-- What a line asks for, read by offsets. -/
def Action.ofSlices? (line : String) : Option (Except ConsoleError (Option Action)) :=
  ofTrimmed? (Text.trim line.toList)

namespace Entry

theorem nodup_names : (all.map name).Nodup := by decide

theorem eq_of_name {entry other : Entry} (hentry : entry ∈ all) (hother : other ∈ all)
    (hname : entry.name = other.name) : entry = other :=
  List.inj_on_of_nodup_map nodup_names hentry hother hname

/-- A command finds all words and offsets that it needs if it takes the number of words. -/
theorem readSliced?_eq {entry : Entry} (hentry : entry ∈ all) (arguments : Arguments)
    (haccepts : entry.accepts arguments.words.length = true) :
    entry.readSliced? arguments = some (entry.read arguments) := by
  have hone : entry.least = 1 → 1 ≤ arguments.words.length := by
    intro hleast
    rw [accepts, hleast, Bool.and_eq_true, decide_eq_true_eq] at haccepts
    exact haccepts.1
  unfold readSliced?
  split_ifs with hbreak hcondition hfile
  · obtain rfl : entry = all.get ⟨0, by decide⟩ := eq_of_name hentry (List.get_mem _ _) hbreak
    rw [arguments.words_getElem? (hone rfl), arguments.restAfter?_one]
    rfl
  · obtain rfl : entry = all.get ⟨6, by decide⟩ := eq_of_name hentry (List.get_mem _ _) hcondition
    rw [arguments.words_getElem?_getD, arguments.restAfter?_one]
    show _ = some ((arguments.number UInt32.size arguments.headAndRest.1).map
      (Action.condition · arguments.headAndRest.2))
    cases arguments.number UInt32.size arguments.headAndRest.1 <;> rfl
  · obtain rfl : entry = all.get ⟨17, by decide⟩ := eq_of_name hentry (List.get_mem _ _) hfile
    rw [arguments.words_getElem? (hone rfl), arguments.wordsFrom?_one (hone rfl)]
    have hpath : arguments.headAndRest.1 = arguments.words.headD "" := by
      rw [← arguments.words_getElem?_getD]
      cases arguments.words <;> rfl
    rw [hpath]
    rfl
  · rfl

theorem mem_of_find {word : String} {entry : Entry} (h : find word = .ok entry) : entry ∈ all := by
  unfold find at h
  split at h
  · rename_i found hfound
    obtain rfl : found = entry := Except.ok.inj h
    exact List.mem_of_find?_eq_some hfound
  · cases h

end Entry

/-- Reading a line by offsets never fails, and the line asks for the same. -/
theorem Action.ofSlices?_eq (line : String) :
    Action.ofSlices? line = some (Action.ofLine line) := by
  unfold ofSlices? ofLine
  cases hnext : Text.nextWord? line.toList with
  | none =>
    rw [Text.trim_of_blank (Text.blank_of_nextWord? hnext), ofTrimmed?,
      Text.words_of_blank (by simp)]
    rfl
  | some found =>
    obtain ⟨word, rest⟩ := found
    obtain ⟨gap, hline, hgap, hword, hrest⟩ := Text.exists_of_nextWord? hnext
    have hnone : ∀ c ∈ ([] : List Char), isWhitespace c = true := by simp
    have hfirst : Text.words (word ++ Text.trimEnd rest) = word :: Text.words (Text.trimEnd rest) :=
      Text.words_append hnone hword (Text.breaks_trimEnd hrest)
    rw [hline, Text.trim_append hgap hword.1 hword.head hword.last, ofTrimmed?, hfirst,
      List.head?_cons]
    dsimp only
    cases hfind : Entry.find (String.ofList word) with
    | error error => rfl
    | ok entry =>
      dsimp only
      rw [Text.sliceFrom?_byteSize, Option.bind_eq_bind, Option.bind_some, Text.trim_trimEnd]
      show _ = some (if entry.accepts (Arguments.words ⟨entry.name, Text.trim rest⟩).length then _
        else _)
      split_ifs with haccepts
      · rw [Entry.readSliced?_eq (Entry.mem_of_find hfind) _ haccepts]
        rfl
      · rfl

end DebugLink
