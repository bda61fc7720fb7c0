import DebugLink.Files.Rotation
import DebugLink.Proofs.Files.Tree
import DebugLink.Proofs.Text.Numeral

/-!
What a rotation makes of the files around a log. The live log counts as number 0. Before each move
the number above is free, so a move overwrites nothing (`Shifted`): first the highest number is
given up, then every number in turn, from the highest to 0, moves up and leaves its own place free.
-/

set_option autoImplicit false

namespace DebugLink.FileTree

variable {tree now : FileTree} {log path : Path} {init : List String} {name : String}

/-! ### The name of a log -/

/-- A name that a path may end with. -/
structure IsName (name : String) : Prop where
  moves : Path.stays name = false
  ne_upwards : name ≠ Path.upwards

theorem trimmed_concat (h : Path.stays name = false) :
    Path.trimmed ⟨init ++ [name]⟩ = ⟨init ++ [name]⟩ := by
  rw [Path.trimmed, List.reverse_concat, List.dropWhile_cons_of_neg (by rw [h]; exact nofun),
    List.reverse_cons, List.reverse_reverse]

theorem endsInName_concat (h : IsName name) : Path.endsInName ⟨init ++ [name]⟩ = true := by
  have hne : name ≠ "" := by
    rintro rfl
    exact absurd h.moves (by decide)
  rw [Path.endsInName, List.reverse_concat, List.find?_cons_of_pos (by simpa using hne),
    Option.any_some, h.moves]
  simpa using h.ne_upwards

/-- A name with a number. -/
def numbered (name : String) (index : Nat) : String :=
  name ++ "." ++ toString index

/-- The paths of the logs set aside. -/
theorem rotated_concat (h : IsName name) (index : Nat) :
    rotated ⟨init ++ [name]⟩ index =
      ⟨(Path.trimmed ⟨init⟩).parts ++ [numbered name index]⟩ := by
  have hname : Path.name? ⟨init ++ [name]⟩ = some name := by
    rw [Path.name?, trimmed_concat h.moves, List.getLast?_concat, Option.filter_some_pos]
    exact decide_eq_true h.ne_upwards
  rw [rotated, hname, Path.parent, trimmed_concat h.moves, List.dropLast_concat]
  rfl

theorem toList_numbered (name : String) (index : Nat) :
    (numbered name index).toList = name.toList ++ '.' :: (toString index).toList := by
  rw [numbered, String.toList_append, String.toList_append, List.append_assoc]
  rfl

theorem numbered_injective (name : String) : Function.Injective (numbered name) := by
  intro i j h
  have hlists := congrArg String.toList h
  rw [toList_numbered, toList_numbered, List.append_cancel_left_eq] at hlists
  have hdigits : (toString i).toList = (toString j).toList := List.tail_eq_of_cons_eq hlists
  have hvalue := Numeral.digits?_toString i
  rw [hdigits, Numeral.digits?_toString] at hvalue
  exact (Option.some.inj hvalue).symm

theorem ne_numbered (name : String) (index : Nat) : name ≠ numbered name index := by
  intro h
  have hlength := congrArg (fun s ↦ s.toList.length) h
  rw [toList_numbered, List.length_append, List.length_cons] at hlength
  omega

/-- A name with a number is a name, since it has a digit in it. -/
theorem isName_numbered (name : String) (index : Nat) : IsName (numbered name index) := by
  obtain ⟨digit, hdigit⟩ := List.exists_mem_of_ne_nil _ (Numeral.toString_ne_nil index)
  have hmem : digit ∈ (numbered name index).toList := by
    rw [toList_numbered]
    exact List.mem_append_right _ (List.mem_cons_of_mem _ hdigit)
  have hplain : ∀ s : String, s.toList.any Char.isDigit = false → numbered name index ≠ s := by
    rintro s hs rfl
    rw [List.any_eq_true.mpr ⟨digit, hmem, Numeral.isDigit_of_mem_toString hdigit⟩] at hs
    cases hs
  constructor
  · rw [Path.stays, Bool.or_eq_false_iff]
    exact ⟨decide_eq_false (hplain "" rfl), decide_eq_false (hplain "." rfl)⟩
  · exact hplain Path.upwards rfl

/-- A path to a file ends with a name, and what leads up to the name leads to a directory. -/
theorem exists_of_get?_file {content : String} (h : tree.get? log = some (.file content)) :
    ∃ init name place, log = ⟨init ++ [name]⟩ ∧ IsName name ∧
      tree.follow? [] init = some place ∧ tree.locate? log = some (place ++ [name]) := by
  obtain ⟨last, hlocate, hfile⟩ := locate?_of_get? h
  obtain ⟨parts⟩ := log
  have hfollow : tree.follow? [] parts = some last := by
    unfold locate? at hlocate
    split_ifs at hlocate
    exact hlocate
  rcases List.eq_nil_or_concat' parts with rfl | ⟨init, name, rfl⟩
  · obtain rfl : [] = last := Option.some.inj hfollow
    cases hfile
  · rw [follow?_append] at hfollow
    obtain ⟨place, hplace, hlast⟩ := Option.bind_eq_some_iff.mp hfollow
    rw [follow?_cons] at hlast
    split_ifs at hlast with hdirectory
    obtain ⟨next, hnext, hend⟩ := Option.bind_eq_some_iff.mp hlast
    obtain rfl : next = last := Option.some.inj hend
    have hinside : tree.Inside place := (inside_nil tree).follow? hplace
    unfold next? at hnext
    split_ifs at hnext with hstays hup hroot hlimit
    · obtain rfl : place = next := Option.some.inj hnext
      rw [hdirectory] at hfile
      cases hfile
    · obtain rfl : place.dropLast = next := Option.some.inj hnext
      have hne : place.dropLast ≠ place := by
        intro heq
        have hlength := congrArg List.length heq
        rw [List.length_dropLast] at hlength
        have hpos := List.length_pos_iff.mpr fun hnil ↦ hroot (List.isEmpty_iff.mpr hnil)
        omega
      rw [hinside _ (List.dropLast_prefix place) hne] at hfile
      cases hfile
    · obtain rfl : place ++ [name] = next := Option.some.inj hnext
      exact ⟨init, name, place, rfl, ⟨Bool.eq_false_iff.mpr hstays, hup⟩, hplace, hlocate⟩

/-- The logs set aside stand beside the live one. -/
theorem locate?_rotated {index : Nat} {place last : Location} (hname : IsName name)
    (hinit : tree.follow? [] init = some place)
    (h : tree.locate? (rotated ⟨init ++ [name]⟩ index) = some last) :
    last = place ++ [numbered name index] := by
  rw [rotated_concat hname] at h
  unfold locate? at h
  split_ifs at h
  rw [follow?_trimmed, follow?_append, hinit, Option.bind_eq_bind, Option.bind_some,
    follow?_cons] at h
  split_ifs at h
  obtain ⟨next, hnext, hend⟩ := Option.bind_eq_some_iff.mp h
  obtain rfl : next = last := Option.some.inj hend
  have hnumbered := isName_numbered name index
  unfold next? at hnext
  rw [if_neg (Bool.eq_false_iff.mp hnumbered.moves), if_neg hnumbered.ne_upwards] at hnext
  split_ifs at hnext
  exact (Option.some.inj hnext).symm

/-! ### Logs by their numbers -/

/-- The path of a log by its number. The live one has the number 0. -/
def slot (log : Path) : Nat → Path
  | 0 => log
  | index + 1 => rotated log (index + 1)

/-- No two logs have one place. -/
theorem slot_injective {content : String} (h : tree.get? log = some (.file content)) {i j : Nat}
    (hmeet : tree.Meet (slot log i) (slot log j)) : i = j := by
  obtain ⟨init, name, place, rfl, hname, hinit, hlive⟩ := exists_of_get?_file h
  obtain ⟨last, hi, hj⟩ := hmeet
  have hplace : ∀ {index last}, tree.locate? (slot ⟨init ++ [name]⟩ index) = some last →
      last = place ++ [if index = 0 then name else numbered name index] := by
    intro index last hlast
    cases index with
    | zero => exact Option.some.inj (hlast.symm.trans hlive)
    | succ index => exact locate?_rotated hname hinit hlast
  have hsame := (hplace hi).symm.trans (hplace hj)
  rw [List.append_cancel_left_eq, List.singleton_inj] at hsame
  split_ifs at hsame with hzero hzero' hzero'
  · rw [hzero, hzero']
  · exact absurd hsame (ne_numbered name j)
  · exact absurd hsame.symm (ne_numbered name i)
  · exact numbered_injective name hsame

theorem endsInName_slot {content : String} (h : tree.get? log = some (.file content)) (i : Nat) :
    (slot log i).endsInName = true := by
  obtain ⟨init, name, place, rfl, hname, -, -⟩ := exists_of_get?_file h
  cases i with
  | zero => exact endsInName_concat hname
  | succ i =>
    rw [slot, rotated_concat hname]
    exact endsInName_concat (isName_numbered name (i + 1))

/-! ### Changes in a row -/

/-- A change goes well if it can, and if it goes well it reaches its goal. -/
def Change.Reaches (change : Change) (tree : FileTree) (possible : Prop)
    (goal : FileTree → Prop) : Prop :=
  (possible → (change tree).1 = true) ∧ ((change tree).1 = true → goal (change tree).2)

theorem Change.reaches_attempt {operation : FileTree → Option FileTree} {possible : Prop}
    {goal : FileTree → Prop} {after : FileTree} (h : operation tree = some after)
    (hgoal : goal after) : (Change.attempt operation).Reaches tree possible goal := by
  unfold Reaches attempt
  rw [h]
  exact ⟨fun _ ↦ rfl, fun _ ↦ hgoal⟩

theorem Change.reaches_attempt_of_none {operation : FileTree → Option FileTree} {possible : Prop}
    {goal : FileTree → Prop} (h : operation tree = none) (hpossible : ¬possible) :
    (Change.attempt operation).Reaches tree possible goal := by
  unfold Reaches attempt
  rw [h]
  exact ⟨fun hcan ↦ absurd hcan hpossible, nofun⟩

theorem Change.reaches_onExisting {path : Path} {operation : FileTree → Option FileTree}
    {possible : Prop} {goal : FileTree → Prop} (habsent : tree.get? path = none → goal tree)
    (hpresent : ∀ node, tree.get? path = some node →
      (Change.attempt operation).Reaches tree possible goal) :
    (Change.onExisting path operation).Reaches tree possible goal := by
  cases hnode : tree.get? path with
  | none =>
    rw [Reaches, onExisting, contains, hnode]
    exact ⟨fun _ ↦ rfl, fun _ ↦ habsent hnode⟩
  | some node =>
    rw [Reaches, onExisting, contains, hnode]
    exact hpresent node hnode

theorem Change.reaches_nil {possible : Prop} {goal : FileTree → Prop} (h : goal tree) :
    (Change.inOrder []).Reaches tree possible goal :=
  ⟨fun _ ↦ rfl, fun _ ↦ h⟩

theorem Change.reaches_cons {change : Change} {rest : List Change} {possible : Prop}
    {middle goal : FileTree → Prop} (hchange : change.Reaches tree possible middle)
    (hrest : ∀ next, middle next → (Change.inOrder rest).Reaches next possible goal) :
    (Change.inOrder (change :: rest)).Reaches tree possible goal := by
  obtain ⟨hwell, hmiddle⟩ := hchange
  unfold Reaches inOrder
  rcases hresult : change tree with ⟨well, next⟩
  rw [hresult] at hwell hmiddle
  cases well with
  | true => exact hrest next (hmiddle rfl)
  | false => exact ⟨fun hpossible ↦ absurd (hwell hpossible) nofun, nofun⟩

/-! ### Moving up -/

/-- What comes of a tree when one number is free and all logs above it have come from the number
below. -/
structure Shifted (log : Path) (maxFiles : Nat) (tree : FileTree) (free : Nat) (now : FileTree) :
    Prop where
  locate : ∀ path, now.locate? path = tree.locate? path
  below : ∀ i < free, now.get? (slot log i) = tree.get? (slot log i)
  absent : now.get? (slot log free) = none
  above : ∀ i, free ≤ i → i < maxFiles → now.get? (slot log (i + 1)) = tree.get? (slot log i)
  other : ∀ path, (∀ i ≤ maxFiles, ¬ tree.Meet path (slot log i)) →
    now.get? path = tree.get? path

variable {maxFiles free : Nat} {content : String}

theorem Shifted.meet (h : Shifted log maxFiles tree free now) {other : Path}
    (hmeet : now.Meet path other) : tree.Meet path other := by
  obtain ⟨place, hpath, hother⟩ := hmeet
  exact ⟨place, (h.locate path).symm.trans hpath, (h.locate other).symm.trans hother⟩

/-- The highest number is given up first. -/
theorem shifted_remove (hlive : tree.get? log = some (.file content))
    (hfiles : tree.get? (slot log maxFiles) ≠ some .directory) (possible : Prop) :
    (Change.onExisting (slot log maxFiles) (·.removeFile? (slot log maxFiles))).Reaches tree
      possible (Shifted log maxFiles tree maxFiles) := by
  have hnone : ∀ {after : FileTree} (i : Nat), maxFiles ≤ i → i < maxFiles →
      after.get? (slot log (i + 1)) = tree.get? (slot log i) :=
    fun _ hfrom hto ↦ absurd hto hfrom.not_gt
  refine Change.reaches_onExisting (fun habsent ↦ ?_) fun node hnode ↦ ?_
  · exact ⟨fun _ ↦ rfl, fun _ _ ↦ rfl, habsent, hnone, fun _ _ ↦ rfl⟩
  · cases node with
    | directory => exact absurd hnode hfiles
    | file oldest =>
      obtain ⟨after, hafter, hlocate, hgone, hkeep⟩ := removeFile?_file hnode
      refine Change.reaches_attempt hafter
        ⟨hlocate, fun i hi ↦ ?_, hgone, hnone, fun path hoff ↦ ?_⟩
      · exact hkeep _ fun hmeet ↦ hi.ne (slot_injective hlive hmeet)
      · exact hkeep path (hoff maxFiles le_rfl)

/-- A number with no log is free itself. -/
theorem Shifted.of_absent (h : Shifted log maxFiles tree (free + 1) now)
    (habsent : now.get? (slot log free) = none) : Shifted log maxFiles tree free now := by
  refine ⟨h.locate, fun i hi ↦ h.below i (Nat.lt_succ_of_lt hi), habsent, ?_, h.other⟩
  intro i hfrom hto
  rcases hfrom.eq_or_lt with rfl | hlt
  · rw [h.absent, ← h.below free (Nat.lt_succ_self free), habsent]
  · exact h.above i hlt hto

/-- A log moves up to the number that is free and leaves its own free. -/
theorem Shifted.of_moved (hlive : tree.get? log = some (.file content))
    (h : Shifted log maxFiles tree (free + 1) now) (hfree : free < maxFiles) {old : String}
    (hfile : now.get? (slot log free) = some (.file old)) :
    (Change.attempt (·.rename? (slot log free) (slot log (free + 1)))).Reaches now
      (tree.locate? (slot log (free + 1))).isSome (Shifted log maxFiles tree free) := by
  cases hlocate : tree.locate? (slot log (free + 1)) with
  | none =>
    exact Change.reaches_attempt_of_none (rename?_of_lost ((h.locate _).trans hlocate)) nofun
  | some new =>
    have hapart : ¬ now.Meet (slot log free) (slot log (free + 1)) := fun hboth ↦
      absurd (slot_injective hlive (h.meet hboth)) (Nat.succ_ne_self free).symm
    obtain ⟨after, hafter, hsame, hmoved, hleft, hkeep⟩ := rename?_file
      (endsInName_slot hlive free) hfile ((h.locate _).trans hlocate) hapart
      (by rw [h.absent]; exact nofun)
    have hslot : ∀ i, i ≠ free → i ≠ free + 1 →
        after.get? (slot log i) = now.get? (slot log i) := fun i hi hi' ↦
      hkeep _ (fun hboth ↦ hi (slot_injective hlive (h.meet hboth)))
        (fun hboth ↦ hi' (slot_injective hlive (h.meet hboth)))
    refine Change.reaches_attempt hafter
      ⟨fun path ↦ ?_, fun i hi ↦ ?_, hleft, fun i hfrom hto ↦ ?_, fun path hoff ↦ ?_⟩
    · rw [hsame, h.locate]
    · rw [hslot i hi.ne (by omega), h.below i (by omega)]
    · rcases hfrom.eq_or_lt with rfl | hlt
      · rw [hmoved, ← h.below free (Nat.lt_succ_self free), hfile]
      · rw [hslot (i + 1) (by omega) (by omega), h.above i hlt hto]
    · rw [hkeep path (fun hboth ↦ hoff free hfree.le (h.meet hboth))
        (fun hboth ↦ hoff (free + 1) hfree (h.meet hboth)), h.other path hoff]

/-- The logs set aside move up in turn, and then the live one does. -/
theorem Shifted.inOrder (hlive : tree.get? log = some (.file content))
    (hfiles : ∀ i ≤ maxFiles, tree.get? (slot log i) ≠ some .directory) {possible : Prop}
    (hpossible : possible → ∀ i < maxFiles, (tree.locate? (slot log (i + 1))).isSome)
    (count : Nat) (hcount : count < maxFiles) (now : FileTree)
    (h : Shifted log maxFiles tree (count + 1) now) :
    (Change.inOrder (((List.range' 1 count).reverse.map (shiftUp log)) ++
      [Change.attempt (·.rename? log (rotated log 1))])).Reaches now possible
        (Shifted log maxFiles tree 0) := by
  induction count generalizing now with
  | zero =>
    have hfile : now.get? (slot log 0) = some (.file content) := (h.below 0 Nat.one_pos).trans hlive
    obtain ⟨hwell, hgoal⟩ := h.of_moved hlive hcount hfile
    refine Change.reaches_cons ⟨fun hall ↦ hwell (hpossible hall 0 hcount), hgoal⟩ ?_
    exact fun next hnext ↦ Change.reaches_nil hnext
  | succ count ih =>
    rw [List.range'_concat, List.reverse_concat, List.map_cons, List.cons_append,
      show 1 + 1 * count = count + 1 by omega]
    have hup : (shiftUp log (count + 1)).Reaches now possible
        (Shifted log maxFiles tree (count + 1)) := by
      refine Change.reaches_onExisting h.of_absent fun node hnode ↦ ?_
      have hbefore := h.below (count + 1) (by omega)
      cases node with
      | directory => exact absurd (hbefore.symm.trans hnode) (hfiles (count + 1) hcount.le)
      | file old =>
        obtain ⟨hwell, hgoal⟩ := h.of_moved hlive hcount hnode
        exact ⟨fun hall ↦ hwell (hpossible hall (count + 1) hcount), hgoal⟩
    exact Change.reaches_cons hup fun next hnext ↦ ih (by omega) next hnext

/-! ### A whole rotation -/

/-- Where a rotation leaves what a path leads to: a log one number up, all else in its place. -/
def carried (tree : FileTree) (log : Path) (maxFiles : Nat) (path : Path) : Path :=
  match (List.range maxFiles).find? fun i ↦ tree.Meet path (slot log i) with
  | some i => slot log (i + 1)
  | none => path

/-- What a rotation that sets the live log aside makes of a tree. Only the file with the highest
number is lost. All others are where they were carried, no two of them to one place. -/
structure Rotation (log : Path) (maxFiles : Nat) (tree after : FileTree) : Prop where
  gone : after.get? log = none
  newest : after.get? (rotated log 1) = tree.get? log
  shifted : ∀ i, 1 ≤ i → i < maxFiles →
    after.get? (rotated log (i + 1)) = tree.get? (rotated log i)
  untouched : ∀ path, ¬ tree.Meet path log →
    (∀ i, 1 ≤ i → i ≤ maxFiles → ¬ tree.Meet path (rotated log i)) →
    after.get? path = tree.get? path
  kept : ∀ path content, tree.get? path = some (.file content) →
    ¬ tree.Meet path (rotated log maxFiles) →
    after.get? (carried tree log maxFiles path) = some (.file content)
  apart : ∀ path other, ¬ tree.Meet path (rotated log maxFiles) →
    ¬ tree.Meet other (rotated log maxFiles) →
    after.Meet (carried tree log maxFiles path) (carried tree log maxFiles other) →
    tree.Meet path other

theorem slot_of_pos {i : Nat} (h : 1 ≤ i) : slot log i = rotated log i := by
  obtain ⟨i, rfl⟩ := Nat.exists_eq_succ_of_ne_zero (Nat.one_le_iff_ne_zero.mp h)
  rfl

/-- A log with a number below the highest is carried up, and everything else stays. -/
theorem carried_cases (tree : FileTree) (log : Path) (maxFiles : Nat) (path : Path) :
    (∃ i < maxFiles, tree.Meet path (slot log i) ∧
      carried tree log maxFiles path = slot log (i + 1)) ∨
    (∀ i < maxFiles, ¬ tree.Meet path (slot log i)) ∧ carried tree log maxFiles path = path := by
  unfold carried
  split
  · rename_i i hfound
    have hmeet := List.find?_some hfound
    have hi := List.mem_range.mp (List.mem_of_find?_eq_some hfound)
    exact .inl ⟨i, hi, of_decide_eq_true hmeet, rfl⟩
  · rename_i hnone
    refine .inr ⟨fun i hto hmeet ↦ ?_, rfl⟩
    exact List.find?_eq_none.mp hnone i (List.mem_range.mpr hto) (decide_eq_true hmeet)

/-- When the number 0 is free, the rotation is complete. -/
theorem Shifted.rotation (hlive : tree.get? log = some (.file content)) (hmax : 1 ≤ maxFiles)
    (h : Shifted log maxFiles tree 0 now) : Rotation log maxFiles tree now := by
  have hnone : ∀ {path}, (∀ i < maxFiles, ¬ tree.Meet path (slot log i)) →
      ¬ tree.Meet path (rotated log maxFiles) → ∀ i ≤ maxFiles, ¬ tree.Meet path (slot log i) := by
    intro path hbelow hlast i hto
    rcases hto.eq_or_lt with rfl | hlt
    · rwa [slot_of_pos hmax]
    · exact hbelow i hlt
  refine ⟨h.absent, h.above 0 le_rfl hmax, fun i hone hto ↦ ?_, fun path hlog hoff ↦ ?_,
    fun path kept hfile hlast ↦ ?_, fun path other hlast hlast' hmeet ↦ ?_⟩
  · rw [← slot_of_pos hone]
    exact h.above i (Nat.zero_le i) hto
  · refine h.other path fun i hto hmeet ↦ ?_
    cases i with
    | zero => exact hlog hmeet
    | succ i => exact hoff (i + 1) (Nat.succ_pos i) hto hmeet
  · rcases carried_cases tree log maxFiles path with ⟨i, hto, hmeet, hpath⟩ | ⟨hbelow, hpath⟩
    · rw [hpath, h.above i (Nat.zero_le i) hto, ← hmeet.get?_eq, hfile]
    · rw [hpath, h.other path (hnone hbelow hlast), hfile]
  · have hboth := h.meet hmeet
    rcases carried_cases tree log maxFiles path with ⟨i, hto, hslot, hpath⟩ | ⟨hbelow, hpath⟩ <;>
      rcases carried_cases tree log maxFiles other with
        ⟨j, hto', hslot', hother⟩ | ⟨hbelow', hother⟩ <;>
      rw [hpath, hother] at hboth
    · obtain rfl : i = j := Nat.succ_injective (slot_injective hlive hboth)
      exact hslot.trans hslot'.symm
    · exact absurd hboth.symm (hnone hbelow' hlast' (i + 1) hto)
    · exact absurd hboth (hnone hbelow hlast (j + 1) hto')
    · exact hboth

/-- A log that is missing or shorter than its limit is left alone. Otherwise a rotation in which
nothing fails moves the live log to the number 1 and every number up by one, with its content or
with nothing where there was nothing, and leaves all else as it is. Nothing fails if the names of
all numbers may be had. -/
theorem rotate_shifts (log : Path) (maxSize maxFiles : Nat) (tree : FileTree)
    (hmax : 1 ≤ maxFiles)
    (hfiles : ∀ i, 1 ≤ i → i ≤ maxFiles → tree.get? (rotated log i) ≠ some .directory) :
    (tree.get? log = none → rotate log maxSize maxFiles tree = (true, tree)) ∧
      ∀ content, tree.get? log = some (.file content) →
        (content.utf8ByteSize < maxSize → rotate log maxSize maxFiles tree = (true, tree)) ∧
        (maxSize ≤ content.utf8ByteSize →
          ((∀ i, 1 ≤ i → i ≤ maxFiles → (tree.locate? (rotated log i)).isSome) →
            (rotate log maxSize maxFiles tree).1 = true) ∧
          ((rotate log maxSize maxFiles tree).1 = true →
            Rotation log maxFiles tree (rotate log maxSize maxFiles tree).2)) := by
  refine ⟨fun hmissing ↦ ?_, fun content hlive ↦ ⟨fun hshort ↦ ?_, fun hlong ↦ ?_⟩⟩
  · rw [rotate, size?, hmissing]
    rfl
  · rw [rotate, size?, hlive]
    exact if_pos hshort
  · have hslots : ∀ i ≤ maxFiles, tree.get? (slot log i) ≠ some .directory := by
      intro i hto
      cases i with
      | zero =>
        rw [slot, hlive]
        exact nofun
      | succ i => exact hfiles (i + 1) (Nat.succ_pos i) hto
    obtain ⟨count, rfl⟩ := Nat.exists_eq_succ_of_ne_zero (Nat.one_le_iff_ne_zero.mp hmax)
    have hrotate : rotate log maxSize (count + 1) tree =
        Change.inOrder (Change.onExisting (slot log (count + 1))
          (·.removeFile? (slot log (count + 1))) ::
            (((List.range' 1 count).reverse.map (shiftUp log)) ++
              [Change.attempt (·.rename? log (rotated log 1))])) tree := by
      rw [rotate, size?, hlive]
      exact if_neg hlong.not_gt
    have hpossible : (∀ i, 1 ≤ i → i ≤ count + 1 → (tree.locate? (rotated log i)).isSome) →
        ∀ i < count + 1, (tree.locate? (slot log (i + 1))).isSome := fun hall i hto ↦
      hall (i + 1) (Nat.succ_pos i) hto
    obtain ⟨hwell, hgoal⟩ := Change.reaches_cons
      (shifted_remove hlive (hslots (count + 1) le_rfl) _) fun next hnext ↦
        hnext.inOrder hlive hslots hpossible count (Nat.lt_succ_self count)
    rw [hrotate]
    exact ⟨hwell, fun hdone ↦ (hgoal hdone).rotation hlive hmax⟩

/-- A log that was set aside under the numbers 1 and 3, but not under 2. -/
def gapped : FileTree :=
  ⟨[(["logs"], .directory), (["logs", "run.log"], .file "live"),
    (["logs", "run.log.1"], .file "first"), (["logs", "run.log.3"], .file "third"),
    (["logs", "other"], .file "")]⟩

def gappedLog : Path := ⟨["logs", "run.log"]⟩

theorem rotate_shifts_of_gap :
    gapped.get? gappedLog = some (.file "live") ∧ (rotate gappedLog 4 3 gapped).1 = true ∧
      Rotation gappedLog 3 gapped (rotate gappedLog 4 3 gapped).2 := by
  have hlive : gapped.get? gappedLog = some (.file "live") := by decide
  have hfiles : ∀ i, 1 ≤ i → i ≤ 3 → gapped.get? (rotated gappedLog i) ≠ some .directory := by
    intro i hone hto
    obtain rfl | rfl | rfl : i = 1 ∨ i = 2 ∨ i = 3 := by omega
    all_goals decide
  have hplaces : ∀ i, 1 ≤ i → i ≤ 3 → (gapped.locate? (rotated gappedLog i)).isSome := by
    intro i hone hto
    obtain rfl | rfl | rfl : i = 1 ∨ i = 2 ∨ i = 3 := by omega
    all_goals decide
  obtain ⟨hwell, hrotation⟩ := ((rotate_shifts gappedLog 4 3 gapped (by decide) hfiles).2 "live"
    hlive).2 (by decide)
  exact ⟨hlive, hwell hplaces, hrotation (hwell hplaces)⟩

end DebugLink.FileTree
