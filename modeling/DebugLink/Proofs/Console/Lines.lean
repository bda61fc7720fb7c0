import DebugLink.Proofs.Console.Slicing
import DebugLink.Proofs.Text.Numeral

/-!
Writing console lines. Every action that a line can ask for has a command and arguments, and any
line on which they are laid out asks for it again. Commands of one kind read their arguments alike,
so there is one lemma about what each kind makes of arguments that are laid out (`Entry.Reads`).
-/

set_option autoImplicit false

namespace DebugLink

open Text

/-! ### Actions in writing -/

/-- The breakpoints that a line can ask for: with a condition, temporary, or in hardware, but not
two of these, and nothing else. -/
inductive BreakRequest.Expressible : BreakRequest → Prop
  | plain {location : String} : IsWord location → Expressible (.atLocation location)
  | conditional {location condition : String} : IsWord location → IsPhrase condition →
    Expressible { atLocation location with condition := some condition }
  | temporary {location : String} : IsWord location →
    Expressible { atLocation location with temporary := true }
  | hardware {location : String} : IsWord location →
    Expressible { atLocation location with hardware := true }

namespace Action

/-- The commands that ask for an action, each by all of its names. -/
def names : Action → List String
  | setBreak request => if request.temporary then ["tb"] else if request.hardware then ["hb"]
    else ["b"]
  | delete _ => ["d"]
  | enable _ => ["en"]
  | disable _ => ["dis"]
  | condition _ _ => ["cond"]
  | run => ["r"]
  | resume => ["c"]
  | step => ["s"]
  | next => ["n"]
  | stepInstruction => ["si"]
  | nextInstruction => ["ni"]
  | runUntil _ => ["u"]
  | finish => ["fin"]
  | returnNow => ["ret"]
  | interrupt => ["int"]
  | loadFile _ _ => ["f", "file"]
  | attach _ => ["att"]
  | detach => ["det"]
  | selectFrame _ => ["fr"]
  | evaluate _ => ["p", "print"]
  | watch _ => ["w"]
  | unwatch _ => ["uw"]
  | listWatches => ["ws"]
  | send _ => ["mi"]
  | note _ => ["log"]
  | help _ => ["help"]
  | quit => ["q"]

/-- The arguments of the command for an action. -/
def arguments : Action → List String
  | setBreak request => request.location.toList ++ request.condition.toList
  | delete numbers | enable numbers | disable numbers => numbers.map toString
  | condition number expression =>
    toString number :: if expression.isEmpty then [] else [expression]
  | runUntil location => location.toList
  | loadFile path arguments => path :: arguments
  | attach number | selectFrame number | unwatch number => [toString number]
  | evaluate text | watch text | send text | note text => [text]
  | help command => command.toList
  | _ => []

/-- The actions that a line can ask for: locations, paths and program arguments are words,
conditions, expressions and other texts have no white space around them, and only the expression of
a condition may be empty. Numbers are those of 32 bits, and of 64 bits for watches. -/
def Writable : Action → Prop
  | setBreak request => request.Expressible
  | delete numbers | enable numbers | disable numbers =>
    numbers ≠ [] ∧ ∀ number ∈ numbers, number < UInt32.size
  | condition number expression =>
    number < UInt32.size ∧ (expression = "" ∨ IsPhrase expression)
  | runUntil location => ∀ word ∈ location, IsWord word
  | loadFile path arguments => IsWord path ∧ ∀ argument ∈ arguments, IsWord argument
  | attach number | selectFrame number => number < UInt32.size
  | unwatch id => id < UInt64.size
  | evaluate text | watch text | send text | note text => IsPhrase text
  | help command => ∀ word ∈ command, IsWord word
  | _ => True

end Action

/-- A line with a command and its arguments, any white space between them, and any around them. -/
def IsLine (name : String) (arguments : List String) (line : String) : Prop :=
  ∃ gap rest, line.toList = gap ++ (name.toList ++ rest) ∧ (∀ c ∈ gap, isWhitespace c = true) ∧
    Laid arguments rest

/-! ### Arguments that are laid out -/

namespace Arguments

variable {command : String} {text : List Char} {first : String} {others : List String}

/-- Arguments that are words are found one by one. -/
theorem words_of_laid (h : Laid others text) (hothers : ∀ word ∈ others, IsWord word) :
    Arguments.words ⟨command, trim text⟩ = others := by
  rw [words, words_trim, h.words_eq hothers]

/-- There is a word if there is any argument. -/
theorem one_le_length_words (h : Laid (first :: others) text) (hfirst : IsPhrase first) :
    1 ≤ (Arguments.words ⟨command, trim text⟩).length := by
  obtain ⟨rest, htrim, -⟩ := h.trim_cons hfirst
  rw [words_eq]
  cases hnext : nextWord? (trim text) with
  | some found => exact Nat.succ_pos _
  | none =>
    obtain ⟨c, more, hcons⟩ := List.exists_cons_of_ne_nil hfirst.ne_nil
    have hblank := blank_of_nextWord? hnext c (by rw [htrim, hcons]; exact List.mem_cons_self)
    rw [hfirst.head c (by rw [hcons]; rfl)] at hblank
    cases hblank

/-- A first argument that is a word is found, and what is behind it. -/
theorem headAndRest_of_laid (h : Laid (first :: others) text) (hfirst : IsWord first) :
    ∃ rest, Laid others rest ∧
      headAndRest ⟨command, trim text⟩ = (first, String.ofList (trim rest)) := by
  obtain ⟨rest, htrim, hrest⟩ := h.trim_cons hfirst.isPhrase
  refine ⟨rest, hrest, ?_⟩
  have hnone : ∀ c ∈ ([] : List Char), isWhitespace c = true := by simp
  have hnext : nextWord? (first.toList ++ trimEnd rest) = some (first.toList, trimEnd rest) :=
    nextWord?_append hnone hfirst (breaks_trimEnd hrest.breaks)
  rw [headAndRest, htrim, hnext]
  dsimp only
  rw [trim_trimEnd, String.ofList_toList]

/-- Digits are no white space. -/
theorem isWord_toString (n : Nat) : IsWord (toString n) := by
  refine ⟨Numeral.toString_ne_nil n, fun c hc ↦ ?_⟩
  have hdigit := Numeral.isDigit_of_mem_toString hc
  have hascii : c.toNat < 128 := ascii_of_isAlphanum (by rw [Char.isAlphanum, hdigit, Bool.or_true])
  revert hdigit
  exact of_ascii (P := fun c ↦ c.isDigit = true → isWhitespace c = false) (by decide) hascii

theorem number_toString {n bound : Nat} (h : n < bound) (arguments : Arguments) :
    arguments.number bound (toString n) = .ok n := by
  rw [number, Numeral.unsigned?_toString, if_pos h]

theorem mapM_toString {numbers : List Nat} {f : String → Except ConsoleError Nat}
    (h : ∀ n ∈ numbers, f (toString n) = .ok n) : (numbers.map toString).mapM f = .ok numbers := by
  induction numbers with
  | nil => rfl
  | cons n numbers ih =>
    obtain ⟨hn, hnumbers⟩ := List.forall_mem_cons.mp h
    rw [List.map_cons, List.mapM_cons, hn, ih hnumbers]
    rfl

end Arguments

/-! ### Kinds of commands -/

namespace Entry

variable {name placeholder summary : String} {aliases : List String}

/-- A command asks for an action when these arguments are laid out behind it. -/
def Reads (entry : Entry) (action : Action) (arguments : List String) : Prop :=
  ∀ text, Laid arguments text →
    entry.accepts (Arguments.words ⟨entry.name, trim text⟩).length = true ∧
      entry.read ⟨entry.name, trim text⟩ = .ok action

theorem accepts_of_least {entry : Entry} {count : Nat} (hleast : entry.least ≤ count)
    (hmost : entry.most = none) : entry.accepts count = true := by
  rw [accepts, hmost, decide_eq_true hleast]
  rfl

theorem reads_bare (action : Action) : (bare name summary action).Reads action [] := by
  intro text h
  rw [Arguments.words_of_laid h nofun]
  exact ⟨rfl, rfl⟩

theorem reads_onBreakpoints (action : List Nat → Action) {numbers : List Nat} (hne : numbers ≠ [])
    (hnumbers : ∀ n ∈ numbers, n < UInt32.size) :
    (onBreakpoints name summary action).Reads (action numbers) (numbers.map toString) := by
  intro text h
  have hwords : ∀ command, Arguments.words ⟨command, trim text⟩ = numbers.map toString := by
    refine fun command ↦ Arguments.words_of_laid h fun word hword ↦ ?_
    obtain ⟨n, -, rfl⟩ := List.mem_map.mp hword
    exact Arguments.isWord_toString n
  constructor
  · rw [hwords, List.length_map]
    exact accepts_of_least (List.length_pos_iff.mpr hne) rfl
  · show (Arguments.numbers _).map action = _
    rw [Arguments.numbers, hwords,
      Arguments.mapM_toString fun n hn ↦ Arguments.number_toString (hnumbers n hn) _]
    rfl

theorem reads_onText (action : String → Action) {text : String} (htext : IsPhrase text) :
    (onText name aliases placeholder summary action).Reads (action text) [text] := by
  intro line h
  constructor
  · exact accepts_of_least (Arguments.one_le_length_words h htext) rfl
  · show Except.ok (action (Arguments.whole _)) = _
    rw [Arguments.whole, h.trim_singleton htext, String.ofList_toList]

theorem reads_onNumber (action : Nat → Action) {bound n : Nat} (hn : n < bound) :
    (onNumber name placeholder summary bound action).Reads (action n) [toString n] := by
  intro text h
  have hword := Arguments.isWord_toString n
  obtain ⟨rest, -, hhead⟩ := Arguments.headAndRest_of_laid h hword
  constructor
  · rw [Arguments.words_of_laid h (List.forall_mem_singleton.mpr hword)]
    rfl
  · show (Arguments.firstNumber _ bound).map action = _
    rw [Arguments.firstNumber, hhead, Arguments.number_toString hn]
    rfl

theorem reads_onWord (action : Option String → Action) {word : Option String}
    (hword : ∀ w ∈ word, IsWord w) :
    (onWord name placeholder summary action).Reads (action word) word.toList := by
  intro text h
  have hwords : ∀ command, Arguments.words ⟨command, trim text⟩ = word.toList := fun command ↦
    Arguments.words_of_laid h fun w hw ↦ hword w (Option.mem_toList.mp hw)
  constructor
  · rw [hwords]
    cases word <;> rfl
  · show Except.ok (action (Arguments.words _).head?) = _
    rw [hwords]
    cases word <;> rfl

theorem reads_onLocation (request : String → BreakRequest) {location : String}
    (hlocation : IsWord location) :
    (onLocation name summary request).Reads (.setBreak (request location)) [location] := by
  intro text h
  constructor
  · rw [Arguments.words_of_laid h (List.forall_mem_singleton.mpr hlocation)]
    rfl
  · show Except.ok (Action.setBreak (request (Arguments.whole _))) = _
    rw [Arguments.whole, h.trim_singleton hlocation.isPhrase, String.ofList_toList]

/-- What a breakpoint command finds behind the location is the condition. -/
theorem reads_break {location : String} {condition : Option String} (hlocation : IsWord location)
    (hcondition : ∀ c ∈ condition, IsPhrase c) :
    (all.get ⟨0, by decide⟩).Reads
      (.setBreak { BreakRequest.atLocation location with condition := condition })
      (location :: condition.toList) := by
  intro text h
  obtain ⟨rest, hrest, hhead⟩ := Arguments.headAndRest_of_laid h hlocation
  refine ⟨accepts_of_least (Arguments.one_le_length_words h hlocation.isPhrase) rfl, ?_⟩
  show Except.ok (Action.setBreak (conditional (Arguments.headAndRest _).1
    (Arguments.headAndRest _).2)) = _
  rw [hhead]
  cases condition with
  | none =>
    rw [hrest.trim_nil]
    rfl
  | some c =>
    have hc := hcondition c rfl
    rw [hrest.trim_singleton hc, String.ofList_toList, conditional, hc.isEmpty_eq]
    rfl

/-- What the condition command finds behind the number is the expression, or nothing. -/
theorem reads_condition {number : Nat} {expression : String} (hnumber : number < UInt32.size)
    (hexpression : expression = "" ∨ IsPhrase expression) :
    (all.get ⟨6, by decide⟩).Reads (.condition number expression)
      (Action.condition number expression).arguments := by
  intro text h
  have hword := Arguments.isWord_toString number
  obtain ⟨rest, hrest, hhead⟩ := Arguments.headAndRest_of_laid h hword
  refine ⟨accepts_of_least (Arguments.one_le_length_words h hword.isPhrase) rfl, ?_⟩
  show (Arguments.firstNumber _ UInt32.size).map
    (Action.condition · (Arguments.headAndRest _).2) = _
  rw [Arguments.firstNumber, hhead, Arguments.number_toString hnumber]
  rcases hexpression with rfl | hphrase
  · rw [show trim rest = [] from hrest.trim_nil]
    rfl
  · rw [if_neg (Bool.eq_false_iff.mp hphrase.isEmpty_eq)] at hrest
    rw [hrest.trim_singleton hphrase, String.ofList_toList]
    rfl

theorem reads_load {path : String} {others : List String} (hpath : IsWord path)
    (hothers : ∀ other ∈ others, IsWord other) :
    (all.get ⟨17, by decide⟩).Reads (.loadFile path others) (path :: others) := by
  intro text h
  refine ⟨accepts_of_least (Arguments.one_le_length_words h hpath.isPhrase) rfl, ?_⟩
  show Except.ok (Action.loadFile ((Arguments.words _).headD "") (Arguments.words _).tail) = _
  rw [Arguments.words_of_laid h (List.forall_mem_cons.mpr ⟨hpath, hothers⟩)]
  rfl

/-! ### All commands -/

theorem isWord_of_find {entry : Entry} (h : find name = .ok entry) : IsWord name := by
  have hnames : ∀ entry ∈ all, ∀ word ∈ entry.name :: entry.aliases,
      word.toList ≠ [] ∧ word.toList.any isWhitespace = false := by
    decide
  unfold find at h
  split at h
  · rename_i found hfound
    have hmem := List.mem_of_find?_eq_some hfound
    have hname := List.find?_some hfound
    rw [hasName, Bool.or_eq_true, decide_eq_true_eq, List.contains_iff_mem] at hname
    obtain ⟨hne, hall⟩ := hnames found hmem name (List.mem_cons.mpr hname)
    exact isWord_of_any hne hall
  · cases h

/-- Every name of the command for an action finds a command that reads the arguments for it. -/
theorem exists_reads {action : Action} (h : action.Writable) {name : String}
    (hname : name ∈ action.names) :
    ∃ entry, find name = .ok entry ∧ entry.Reads action action.arguments := by
  cases action with
  | setBreak request =>
    cases h with
    | plain hlocation =>
      obtain rfl := List.mem_singleton.mp hname
      exact ⟨_, rfl, reads_break hlocation nofun⟩
    | conditional hlocation hcondition =>
      obtain rfl := List.mem_singleton.mp hname
      refine ⟨_, rfl, reads_break hlocation fun c hc ↦ ?_⟩
      obtain rfl := Option.some.inj hc
      exact hcondition
    | temporary hlocation =>
      obtain rfl := List.mem_singleton.mp hname
      exact ⟨_, rfl, reads_onLocation _ hlocation⟩
    | hardware hlocation =>
      obtain rfl := List.mem_singleton.mp hname
      exact ⟨_, rfl, reads_onLocation _ hlocation⟩
  | delete numbers | enable numbers | disable numbers =>
    obtain rfl := List.mem_singleton.mp hname
    exact ⟨_, rfl, reads_onBreakpoints _ h.1 h.2⟩
  | condition number expression =>
    obtain rfl := List.mem_singleton.mp hname
    exact ⟨_, rfl, reads_condition h.1 h.2⟩
  | run | resume | step | next | stepInstruction | nextInstruction | finish | returnNow | interrupt
  | detach | listWatches | quit =>
    obtain rfl := List.mem_singleton.mp hname
    exact ⟨_, rfl, reads_bare _⟩
  | runUntil word | help word =>
    obtain rfl := List.mem_singleton.mp hname
    exact ⟨_, rfl, reads_onWord _ h⟩
  | loadFile path others =>
    rcases List.mem_pair.mp hname with rfl | rfl
    · exact ⟨_, rfl, reads_load h.1 h.2⟩
    · exact ⟨_, rfl, reads_load h.1 h.2⟩
  | attach number | selectFrame number | unwatch number =>
    obtain rfl := List.mem_singleton.mp hname
    exact ⟨_, rfl, reads_onNumber _ h⟩
  | evaluate text =>
    rcases List.mem_pair.mp hname with rfl | rfl
    · exact ⟨_, rfl, reads_onText _ h⟩
    · exact ⟨_, rfl, reads_onText _ h⟩
  | watch text | send text | note text =>
    obtain rfl := List.mem_singleton.mp hname
    exact ⟨_, rfl, reads_onText _ h⟩

end Entry

namespace Action

/-- A line with a command that reads its arguments for an action asks for that action. -/
theorem ofLine_of_reads {entry : Entry} {action : Action} {name line : String}
    {arguments : List String} (hfind : Entry.find name = .ok entry)
    (hreads : entry.Reads action arguments) (hline : IsLine name arguments line) :
    ofLine line = .ok (some action) := by
  obtain ⟨gap, rest, hsplit, hgap, hrest⟩ := hline
  obtain ⟨haccepts, hread⟩ := hreads rest hrest
  have hnext := nextWord?_append hgap (Entry.isWord_of_find hfind) hrest.breaks
  unfold ofLine
  rw [hsplit, hnext]
  dsimp only
  rw [String.ofList_toList, hfind]
  show (if entry.accepts (Arguments.words ⟨entry.name, trim rest⟩).length then _ else _) = _
  rw [if_pos haccepts, hread]
  rfl

/-- Any line with a command for an action and its arguments asks for that action, with all the white
space within them, and reading a line, whatever it is, never takes a word that is not there nor a
part of a character. -/
theorem ofLine_roundTrip :
    (∀ action : Action, action.Writable → ∀ name ∈ action.names, ∀ line,
      IsLine name action.arguments line → ofLine line = .ok (some action)) ∧
    ∀ line, ofSlices? line = some (ofLine line) := by
  refine ⟨fun action hwritable name hname line hline ↦ ?_, ofSlices?_eq⟩
  obtain ⟨entry, hfind, hreads⟩ := Entry.exists_reads hwritable hname
  exact ofLine_of_reads hfind hreads hline

/-- A breakpoint with a condition that has two spaces in it. -/
def spacedBreak : Action :=
  setBreak { BreakRequest.atLocation "naïve.c:7" with condition := some "x  > 1" }

theorem ofLine_roundTrip_of_wideSpace :
    IsLine "b" spacedBreak.arguments "\u3000b\t naïve.c:7 \u00a0x  > 1\n" ∧
      ofLine "\u3000b\t naïve.c:7 \u00a0x  > 1\n" = .ok (some spacedBreak) ∧
      ofSlices? "\u3000b\t naïve.c:7 \u00a0x  > 1\n" =
        some (ofLine "\u3000b\t naïve.c:7 \u00a0x  > 1\n") := by
  have hlaid : Laid ["naïve.c:7", "x  > 1"] (['\t', ' '] ++ ("naïve.c:7".toList ++
      ([' ', '\u00a0'] ++ ("x  > 1".toList ++ ['\n'])))) :=
    .cons nofun (List.all_eq_true.mp rfl) (.cons nofun (List.all_eq_true.mp rfl)
      (.nil (List.all_eq_true.mp rfl)))
  have hline : IsLine "b" spacedBreak.arguments "\u3000b\t naïve.c:7 \u00a0x  > 1\n" :=
    ⟨['\u3000'], _, rfl, List.all_eq_true.mp rfl, hlaid⟩
  have hlocation : IsWord "naïve.c:7" := isWord_of_any (by decide) rfl
  have hcondition : IsPhrase "x  > 1" := by
    refine ⟨by decide, ?_, ?_⟩
    · rintro c ⟨⟩
      rfl
    · rintro c ⟨⟩
      rfl
  exact ⟨hline, ofLine_roundTrip.1 spacedBreak (.conditional hlocation hcondition) "b"
    List.mem_cons_self _ hline, ofLine_roundTrip.2 _⟩

end Action

end DebugLink
